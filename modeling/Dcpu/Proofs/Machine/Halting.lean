import Dcpu.Proofs.Machine.Instructions

/-! # Jumps that halt

A machine that carries an instruction out and halts has jumped to that instruction. Whether it would
stay there for ever depends on where the target comes from: a word taken from the stack is gone the
next time, and a call puts a return address on the stack before its target is read again.
-/

namespace Dcpu

open Effects

namespace Machine

/-- The machine with its halt undone. -/
def awake (machine : Machine) : Machine :=
  { machine with halted := false }

/-- The machine while it carries an instruction out, which has been counted and gone behind. -/
def advanced (machine : Machine) : Machine :=
  { machine with steps := machine.steps + 1, pc := machine.pc + 1 }

theorem awake_of_running {machine : Machine} (running : machine.halted = false) :
    machine.awake = machine := by
  rw [awake, ← running]

theorem register_congr {machine other : Machine} {r : Register}
    (registers : other.registers = machine.registers) (pc : other.pc = machine.pc)
    (sp : r = .sp → other.sp = machine.sp) : other.register r = machine.register r := by
  cases r <;> simp_all [register, Register.index?]

end Machine

/-- The target of a jump by this instruction does not depend on what the instruction changes itself. -/
def Instruction.isSteady : Instruction → Bool
  | .basic _ _ source => source ≠ .pop
  | .jsr (.register r) => r ≠ .sp
  | .jsr (.label _) | .jsr (.literal _) | .jsr (.address _) => true
  | .jsr _ => false

namespace Image

/-- Carry instructions out one after another, whether or not the machine has halted. -/
def carryOn (image : Image) : Nat → Exec Unit
  | 0 => pure ()
  | count + 1 => do
    image.carryOn count
    modify Machine.awake
    image.step

/-- A machine would carry the same instruction out for ever: it is the next one after any number of
further instructions. -/
def Stays (image : Image) (machine : Machine) : Prop :=
  ∀ count, ∃ after, image.carryOn count machine = .ok () after ∧ after.pc = machine.pc

/-- The word that an operand stands for, if it can be read without a change of the machine. -/
def read? (image : Image) (machine : Machine) : Operand → Option Word
  | .register r => some (machine.register r)
  | .indirect r => some (machine.memory.read (machine.register r))
  | .memory address => some (machine.memory.read address)
  | .address word => some word
  | .literal word => some word
  | .label name => (image.labelIndex? name).map UInt16.ofNat
  | .pop | .push => none

section Values

variable {image : Image} {machine other after : Machine} {operand : Operand} {word : Word}

theorem value_pop (image : Image) (nonempty : machine.depth ≠ 0) :
    Exec.value image .pop machine = .ok (machine.memory.read machine.sp)
      { machine with sp := machine.sp + 1, depth := machine.depth - 1 } := by
  simp [Exec.value, Exec.pop, bind_apply, map_apply, nonempty]

/-- An operand is read without a change of the machine, or it takes a word from the stack. -/
theorem value_eq_ok (read : Exec.value image operand machine = .ok word after) :
    (image.read? machine operand = some word ∧ after = machine) ∨
      (operand = .pop ∧ machine.depth ≠ 0 ∧ word = machine.memory.read machine.sp ∧
        after = { machine with sp := machine.sp + 1, depth := machine.depth - 1 }) := by
  cases operand with
  | register | indirect | memory | address | literal =>
    left
    cases read
    exact ⟨rfl, rfl⟩
  | push => cases read
  | label name =>
    left
    simp only [Exec.value] at read
    cases defined : image.labelIndex? name with
    | none =>
      rw [defined] at read
      cases read
    | some index =>
      rw [defined] at read
      cases read
      exact ⟨by simp [read?, defined], rfl⟩
  | pop =>
    right
    by_cases empty : machine.depth = 0
    · simp [Exec.value, Exec.pop, bind_apply, empty] at read
    · rw [value_pop image empty] at read
      cases read
      exact ⟨rfl, empty, rfl, rfl⟩

theorem value_of_read? (reads : image.read? machine operand = some word) :
    Exec.value image operand machine = .ok word machine := by
  cases operand with
  | register | indirect | memory | address | literal =>
    cases reads
    rfl
  | push | pop => cases reads
  | label name =>
    obtain ⟨index, defined, rfl⟩ := Option.map_eq_some_iff.mp reads
    simp [Exec.value, defined]

theorem value_halted (read : Exec.value image operand machine = .ok word after) :
    after.halted = machine.halted := by
  obtain ⟨_, rfl⟩ | ⟨_, _, _, rfl⟩ := value_eq_ok read <;> rfl

/-- Operands are read alike by machines with the same memory, registers and stack. -/
theorem read?_congr (operand : Operand) (memory : other.memory = machine.memory)
    (registers : other.registers = machine.registers) (sp : other.sp = machine.sp)
    (pc : other.pc = machine.pc) : image.read? other operand = image.read? machine operand := by
  have same (r : Register) : other.register r = machine.register r :=
    Machine.register_congr registers pc fun _ => sp
  cases operand <;> simp [read?, same, memory]

/-- The target of a steady call is read alike by machines with the same registers, whatever their
stacks are. -/
theorem read?_congr_of_isSteady {target : Operand} (steady : (Instruction.jsr target).isSteady = true)
    (registers : other.registers = machine.registers) (pc : other.pc = machine.pc) :
    image.read? other target = image.read? machine target := by
  cases target with
  | register r =>
    have notStack : r ≠ .sp := by simpa [Instruction.isSteady] using steady
    simp [read?, Machine.register_congr registers pc fun isStack => absurd isStack notStack]
  | label | literal | address => rfl
  | indirect | memory | push | pop => cases steady

/-- Writing an operand other than the program counter does not halt a machine. -/
theorem assign_halted {current : Nat} (elsewhere : operand ≠ .register .pc)
    (ran : Exec.assign current operand word machine = .ok () after) : after.halted = machine.halted := by
  cases operand with
  | register r =>
    cases r with
    | pc => exact absurd rfl elsewhere
    | _ =>
      cases ran
      rfl
  | pop => cases ran
  | _ =>
    cases ran
    rfl

end Values

section Instructions

variable {image : Image} {machine middle after : Machine} {current : Nat} {op : Opcode} {b a : Operand}
  {word : Word}

/-- What a machine does with the next instruction. -/
theorem step_fetched (image : Image) (machine : Machine) {instruction : Instruction}
    (running : machine.halted = false)
    (fetched : image.instructions[machine.pc]? = some instruction) :
    image.step machine = image.execute machine.pc instruction machine.advanced := by
  simp [step, bind_apply, running, fetched, Machine.advanced]

/-- An instruction with two operands reads its source, and its destination unless it is a copy. Then it
goes on, skips the next instruction, or gives its destination a word. -/
theorem execute_basic_eq_ok (ran : image.execute current (.basic op b a) machine = .ok () after) :
    ∃ source middle, Exec.value image a machine = .ok source middle ∧
      ((op = .set ∧ Exec.assign current b source middle = .ok () after) ∨
        (op ≠ .set ∧ ∃ destination further, Exec.value image b middle = .ok destination further ∧
          ((op.isConditional = true ∧ ∃ pc, after = { further with pc }) ∨
            (op.isConditional = false ∧
              Exec.assign current b (op.compute destination source) further = .ok () after)))) := by
  by_cases copies : op = .set
  · subst copies
    obtain ⟨source, middle, read, assigned⟩ := bind_eq_ok_iff.mp ran
    exact ⟨source, middle, read, .inl ⟨rfl, assigned⟩⟩
  · rw [execute_of_ne_set current copies] at ran
    obtain ⟨source, middle, read, rest⟩ := bind_eq_ok_iff.mp ran
    obtain ⟨destination, further, readToo, rest⟩ := bind_eq_ok_iff.mp rest
    refine ⟨source, middle, read, .inr ⟨copies, destination, further, readToo, ?_⟩⟩
    split at rest
    case isTrue conditional =>
      refine .inl ⟨conditional, ?_⟩
      split at rest <;> cases rest
      · exact ⟨after.pc, rfl⟩
      · exact ⟨_, rfl⟩
    case isFalse computes => exact .inr ⟨Bool.eq_false_iff.mpr computes, rest⟩

/-- A jump by way of the program counter. -/
theorem execute_jump (computes : op.isConditional = false)
    (read : Exec.value image a machine = .ok word middle) :
    image.execute current (.basic op (.register .pc) a) machine =
      .ok () (middle.jump current (op.compute (UInt16.ofNat middle.pc) word)) := by
  have counter : Exec.value image (.register .pc) middle = .ok (UInt16.ofNat middle.pc) middle := rfl
  by_cases copies : op = .set
  · subst copies
    simp [execute, bind_apply, read, Exec.assign, Opcode.compute]
  · simp [execute_of_ne_set current copies, bind_apply, read, counter, computes, Exec.assign]

theorem execute_jsr (read : Exec.value image a machine = .ok word middle) :
    image.execute current (.jsr a) machine =
      .ok () ((middle.push (UInt16.ofNat middle.pc)).jump current word) := by
  simp [execute, bind_apply, read]

/-- An instruction that halts is a jump by way of the program counter or a call, and it has gone to
itself. -/
theorem execute_halts {instruction : Instruction} (running : machine.halted = false)
    (ran : image.execute current instruction machine = .ok () after) (halts : after.halted = true) :
    after.pc = current ∧
      ((∃ op source, Opcode.isConditional op = false ∧ instruction = .basic op (.register .pc) source) ∨
        ∃ target, instruction = .jsr target) := by
  have goesThere {middle : Machine} {target : Word} (running : middle.halted = false)
      (halts : (middle.jump current target).halted = true) : (middle.jump current target).pc = current := by
    simpa [Machine.jump, running] using halts
  cases instruction with
  | jsr target =>
    obtain ⟨word, middle, read, jumped⟩ := bind_eq_ok_iff.mp ran
    cases jumped
    exact ⟨goesThere ((value_halted read).trans running) halts, .inr ⟨target, rfl⟩⟩
  | basic op b a =>
    obtain ⟨word, middle, read, done⟩ := execute_basic_eq_ok ran
    have middleRuns : middle.halted = false := (value_halted read).trans running
    -- A destination other than the program counter leaves the machine running.
    have counts {further : Machine} {result : Word} (furtherRuns : further.halted = false)
        (assigned : Exec.assign current b result further = .ok () after) : b = .register .pc := by
      by_contra elsewhere
      rw [assign_halted elsewhere assigned, furtherRuns] at halts
      cases halts
    have jumps (computes : op.isConditional = false) (counter : b = .register .pc) : after.pc = current ∧
        ((∃ op' source, Opcode.isConditional op' = false ∧
            Instruction.basic op b a = .basic op' (.register .pc) source) ∨
          ∃ target, Instruction.basic op b a = .jsr target) := by
      subst counter
      rw [execute_jump computes read] at ran
      cases ran
      exact ⟨goesThere middleRuns halts, .inl ⟨op, a, computes, rfl⟩⟩
    obtain ⟨copies, assigned⟩ | ⟨_, _, further, readToo, ⟨_, _, rfl⟩ | ⟨computes, assigned⟩⟩ := done
    · exact jumps (copies ▸ rfl) (counts middleRuns assigned)
    · rw [value_halted readToo, middleRuns] at halts
      cases halts
    · exact jumps computes (counts ((value_halted readToo).trans middleRuns) assigned)

end Instructions

section Staying

variable {image : Image} {machine after : Machine}

theorem carryOn_succ_eq_ok {count : Nat} : image.carryOn (count + 1) machine = .ok () after ↔
    ∃ middle, image.carryOn count machine = .ok () middle ∧ image.step middle.awake = .ok () after := by
  simp only [carryOn, bind_eq_ok_iff]
  constructor
  · rintro ⟨_, middle, carried, _, _, woken, stepped⟩
    cases woken
    exact ⟨middle, carried, stepped⟩
  · rintro ⟨middle, carried, stepped⟩
    exact ⟨(), middle, carried, (), _, rfl, stepped⟩

/-- A machine stays if each further instruction keeps what makes the next one go to the same place. -/
theorem stays_of_kept (holds : Machine → Prop) (first : holds machine)
    (kept : ∀ now : Machine, holds now → now.pc = machine.pc →
      ∃ next, image.step now.awake = .ok () next ∧ next.pc = machine.pc ∧ holds next) :
    image.Stays machine := by
  have along (count : Nat) : ∃ now, image.carryOn count machine = .ok () now ∧ now.pc = machine.pc ∧
      holds now := by
    induction count with
    | zero => exact ⟨machine, rfl, rfl, first⟩
    | succ count ih =>
      obtain ⟨now, carried, there, held⟩ := ih
      obtain ⟨next, stepped, nextThere, nextHolds⟩ := kept now held there
      exact ⟨next, carryOn_succ_eq_ok.mpr ⟨now, carried, stepped⟩, nextThere, nextHolds⟩
  intro count
  obtain ⟨now, carried, there, _⟩ := along count
  exact ⟨now, carried, there⟩

/-- Every further instruction of a machine that stays goes to the same place. -/
theorem Stays.step (stays : image.Stays machine) (count : Nat) : ∃ now after,
    image.carryOn count machine = .ok () now ∧ now.pc = machine.pc ∧
      image.step now.awake = .ok () after ∧ after.pc = machine.pc := by
  obtain ⟨now, carried, there⟩ := stays count
  obtain ⟨after, carriedOn, afterThere⟩ := stays (count + 1)
  obtain ⟨same, again, stepped⟩ := carryOn_succ_eq_ok.mp carriedOn
  rw [carried] at again
  cases again
  exact ⟨now, after, carried, there, stepped, afterThere⟩

/-- What each instruction of a machine that stays leads to holds after any number of them. -/
theorem Stays.along (stays : image.Stays machine) (holds : Nat → Machine → Prop) (first : holds 0 machine)
    (next : ∀ count (now after : Machine), holds count now → now.pc = machine.pc →
      image.step now.awake = .ok () after → holds (count + 1) after) (count : Nat) :
    ∃ now after, image.carryOn count machine = .ok () now ∧ holds count now ∧ now.pc = machine.pc ∧
      image.step now.awake = .ok () after ∧ after.pc = machine.pc := by
  have held : ∀ now, image.carryOn count machine = .ok () now → holds count now := by
    induction count with
    | zero =>
      rintro now ⟨⟩
      exact first
    | succ count ih =>
      intro later carriedOn
      obtain ⟨now, carried, stepped⟩ := carryOn_succ_eq_ok.mp carriedOn
      obtain ⟨same, again, there⟩ := stays count
      rw [carried] at again
      cases again
      exact next count now later (ih now carried) there stepped
  obtain ⟨now, after, carried, there, stepped, afterThere⟩ := stays.step count
  exact ⟨now, after, carried, held now carried, there, stepped, afterThere⟩

end Staying

section Jumps

variable {image : Image} {before after : Machine} {op : Opcode} {source : Operand}

/-- A computation into the program counter jumps to what it computes. -/
theorem step_jump (fetched : image.instructions[before.pc]? = some (.basic op (.register .pc) source))
    (computes : op.isConditional = false) (stepped : image.step before.awake = .ok () after) :
    ∃ word middle, Exec.value image source before.awake.advanced = .ok word middle ∧
      after = middle.jump before.pc (op.compute (UInt16.ofNat middle.pc) word) := by
  rw [image.step_fetched before.awake rfl fetched] at stepped
  obtain ⟨word, middle, read, _⟩ := execute_basic_eq_ok stepped
  rw [execute_jump computes read] at stepped
  cases stepped
  exact ⟨word, middle, read, rfl⟩

/-- A jump that takes its target from the machine as it is goes to the same place for ever. -/
theorem stays_of_jump (fetched : image.instructions[before.pc]? = some (.basic op (.register .pc) source))
    (computes : op.isConditional = false) (notPop : source ≠ .pop)
    (stepped : image.step before.awake = .ok () after) (there : after.pc = before.pc) :
    image.Stays after := by
  obtain ⟨word, middle, read, rfl⟩ := step_jump fetched computes stepped
  obtain ⟨reads, rfl⟩ | ⟨isPop, _⟩ := value_eq_ok read
  · apply stays_of_kept fun now => now.memory = before.memory ∧ now.registers = before.registers ∧
      now.sp = before.sp
    · exact ⟨rfl, rfl, rfl⟩
    · rintro now ⟨memory, registers, sp⟩ nowThere
      have pc : now.pc = before.pc := nowThere.trans there
      have again : image.read? now.awake.advanced source = some word := by
        rw [← reads]
        exact read?_congr source memory registers sp (congrArg (· + 1) pc)
      have steppedOn := image.step_fetched now.awake rfl (pc ▸ fetched)
      rw [execute_jump computes (value_of_read? again)] at steppedOn
      refine ⟨_, steppedOn, ?_, memory, registers, sp⟩
      have same : now.awake.advanced.pc = before.awake.advanced.pc := congrArg (· + 1) pc
      change (op.compute (UInt16.ofNat now.awake.advanced.pc) word).toNat = _
      rw [same]
      rfl
  · exact absurd isPop notPop

/-- A jump that takes its target from the stack leaves, at the latest when the stack is empty. -/
theorem not_stays_of_pop (fetched : image.instructions[after.pc]? = some (.basic op (.register .pc) .pop))
    (computes : op.isConditional = false) : ¬ image.Stays after := by
  intro stays
  have shrinks := stays.along (fun count now => now.depth + count = after.depth) rfl ?_
  · obtain ⟨now, _, _, held, _⟩ := shrinks (after.depth + 1)
    omega
  · intro count now next held pc stepped
    obtain ⟨word, middle, read, rfl⟩ := step_jump (pc ▸ fetched) computes stepped
    obtain ⟨reads, _⟩ | ⟨_, nonempty, _, rfl⟩ := value_eq_ok read
    · cases reads
    · have nonempty : now.depth ≠ 0 := nonempty
      change now.depth - 1 + (count + 1) = after.depth
      omega

end Jumps

section Calls

variable {image : Image} {before now after : Machine} {target : Operand}

/-- A call pushes the place behind it and jumps to its target. -/
theorem step_call (fetched : image.instructions[before.pc]? = some (.jsr target))
    (stepped : image.step before.awake = .ok () after) :
    ∃ word middle, Exec.value image target before.awake.advanced = .ok word middle ∧
      after = (middle.push (UInt16.ofNat (before.pc + 1))).jump before.pc word := by
  rw [image.step_fetched before.awake rfl fetched] at stepped
  obtain ⟨word, middle, read, jumped⟩ := bind_eq_ok_iff.mp stepped
  cases jumped
  refine ⟨word, middle, read, ?_⟩
  obtain ⟨_, rfl⟩ | ⟨_, _, _, rfl⟩ := value_eq_ok read <;> rfl

/-- A call whose target does not depend on the stack goes to the same place for ever. -/
theorem stays_of_call (fetched : image.instructions[before.pc]? = some (.jsr target))
    (steady : (Instruction.jsr target).isSteady = true)
    (stepped : image.step before.awake = .ok () after) (there : after.pc = before.pc) :
    image.Stays after := by
  obtain ⟨word, middle, read, rfl⟩ := step_call fetched stepped
  obtain ⟨reads, rfl⟩ | ⟨rfl, _⟩ := value_eq_ok read
  · apply stays_of_kept fun now => now.registers = before.registers
    · rfl
    · intro now registers nowThere
      have pc : now.pc = before.pc := nowThere.trans there
      have again : image.read? now.awake.advanced target = some word := by
        rw [← reads]
        exact read?_congr_of_isSteady steady registers (congrArg (· + 1) pc)
      have steppedOn := image.step_fetched now.awake rfl (pc ▸ fetched)
      rw [execute_jsr (value_of_read? again)] at steppedOn
      exact ⟨_, steppedOn, rfl, registers⟩
  · cases steady

/-- A call that reads its own return address as its target goes elsewhere. -/
theorem leaves_of_return (fetched : image.instructions[now.pc]? = some (.jsr target)) {middle : Machine}
    (read : Exec.value image target now.awake.advanced = .ok (UInt16.ofNat (now.pc + 1)) middle)
    (stepped : image.step now.awake = .ok () after) : after.pc ≠ now.pc := by
  obtain ⟨word, middle, readToo, rfl⟩ := step_call fetched stepped
  rw [read] at readToo
  cases readToo
  change (UInt16.ofNat (now.pc + 1)).toNat ≠ now.pc
  rw [UInt16.toNat_ofNat']
  omega

/-- The stack of a machine that stays at a call grows by the return address each time. -/
theorem Stays.grows (stays : image.Stays after)
    (fetched : image.instructions[after.pc]? = some (.jsr target)) (notPop : target ≠ .pop)
    (pushed : after.memory.read after.sp = UInt16.ofNat (after.pc + 1)) (count : Nat) : ∃ now next : Machine,
      now.registers = after.registers ∧ now.sp = after.sp - UInt16.ofNat count ∧
        now.memory.read now.sp = UInt16.ofNat (now.pc + 1) ∧ now.pc = after.pc ∧
        image.step now.awake = .ok () next ∧ next.pc = now.pc := by
  have along := stays.along (fun count now => now.registers = after.registers ∧
    now.sp = after.sp - UInt16.ofNat count ∧ now.memory.read now.sp = UInt16.ofNat (after.pc + 1))
    ⟨rfl, by simp, pushed⟩ ?_ count
  · obtain ⟨now, next, _, ⟨registers, sp, onTop⟩, pc, stepped, nextThere⟩ := along
    exact ⟨now, next, registers, sp, pc ▸ onTop, pc, stepped, nextThere.trans pc.symm⟩
  · rintro count now next ⟨registers, sp, _⟩ pc stepped
    obtain ⟨word, middle, read, rfl⟩ := step_call (pc ▸ fetched) stepped
    obtain ⟨_, rfl⟩ | ⟨isPop, _⟩ := value_eq_ok read
    · refine ⟨registers, ?_, ?_⟩
      · change now.sp - 1 = _
        rw [sp, UInt16.ofNat_add]
        grind
      · simp [Machine.push, Machine.jump, Machine.write, pc]
    · exact absurd isPop notPop

/-- A call that reads its target from a fixed place leaves when the stack has grown over the place. -/
theorem not_stays_of_place (fetched : image.instructions[after.pc]? = some (.jsr target))
    (notPop : target ≠ .pop) (pushed : after.memory.read after.sp = UInt16.ofNat (after.pc + 1))
    (place : Word) (reads : ∀ now : Machine, now.registers = after.registers → now.pc = after.pc →
      now.sp = place → image.read? now.awake.advanced target = some (now.memory.read now.sp)) :
    ¬ image.Stays after := by
  intro stays
  obtain ⟨now, next, registers, sp, onTop, pc, stepped, nextThere⟩ :=
    stays.grows fetched notPop pushed (after.sp - place).toNat
  have there : now.sp = place := by
    rw [sp, UInt16.ofNat_toNat]
    grind
  have read := reads now registers pc there
  rw [onTop] at read
  exact leaves_of_return (pc ▸ fetched) (value_of_read? read) stepped nextThere

/-- A call whose target depends on the stack leaves, at the latest when the stack has grown over the
place where the target is read. -/
theorem not_stays_of_call (fetched : image.instructions[before.pc]? = some (.jsr target))
    (shaky : (Instruction.jsr target).isSteady = false)
    (stepped : image.step before.awake = .ok () after) (there : after.pc = before.pc) :
    ¬ image.Stays after := by
  have fetchedThere : image.instructions[after.pc]? = some (.jsr target) := there ▸ fetched
  obtain ⟨word, middle, read, called⟩ := step_call fetched stepped
  have pushed : after.memory.read after.sp = UInt16.ofNat (after.pc + 1) := by
    rw [there, called]
    simp [Machine.push, Machine.jump, Machine.write]
  cases target with
  | label | literal | address => cases shaky
  | push => cases read
  | memory address =>
    apply not_stays_of_place fetchedThere (by simp) pushed address
    rintro now _ _ rfl
    rfl
  | indirect r =>
    by_cases onStack : r = .sp
    · subst onStack
      apply not_stays_of_place fetchedThere (by simp) pushed after.sp
      intro now _ _ _
      rfl
    · apply not_stays_of_place fetchedThere (by simp) pushed (after.awake.advanced.register r)
      intro now registers pc sp
      have same : now.awake.advanced.register r = after.awake.advanced.register r :=
        Machine.register_congr registers (congrArg (· + 1) pc) fun isStack => absurd isStack onStack
      simp only [read?, same, ← sp]
      rfl
  | register r =>
    have isStack : r = .sp := by simpa [Instruction.isSteady] using shaky
    subst isStack
    cases read
    intro stays
    -- The second time the target is one less.
    obtain ⟨now, next, carried, _, steppedOn, nextThere⟩ := stays.step 0
    cases carried
    obtain ⟨again, _, readAgain, rfl⟩ := step_call fetchedThere steppedOn
    cases readAgain
    have same : before.sp - 1 = before.sp := by
      apply UInt16.toNat_inj.mp
      rw [called] at nextThere
      exact nextThere
    exact absurd same (by grind)
  | pop =>
    obtain ⟨reads, _⟩ | ⟨_, nonempty, _, rfl⟩ := value_eq_ok read
    · cases reads
    intro stays
    obtain ⟨now, next, carried, _, steppedOn, nextThere⟩ := stays.step 0
    cases carried
    have filled : after.awake.advanced.depth ≠ 0 := by
      rw [called]
      exact Nat.succ_ne_zero _
    have readAgain := value_pop image filled
    rw [show after.awake.advanced.memory.read after.awake.advanced.sp = _ from pushed] at readAgain
    exact leaves_of_return fetchedThere readAgain steppedOn nextThere

end Calls

/-- A machine that carries an instruction out and halts has gone to that instruction again. It would
carry the instruction out for ever exactly if the target does not depend on what the instruction changes
itself: if it computes the program counter from anything but a word taken from the stack, or calls a
label, a number, or what stands in a register other than the stack pointer. -/
theorem halting_jump_stays_iff {image : Image} {before after : Machine} {instruction : Instruction}
    (running : before.halted = false) (fetched : image.instructions[before.pc]? = some instruction)
    (stepped : image.step before = .ok () after) (halts : after.halted = true) :
    after.pc = before.pc ∧ (image.Stays after ↔ instruction.isSteady = true) := by
  have ran := stepped
  rw [image.step_fetched before running fetched] at ran
  rw [← before.awake_of_running running] at stepped
  obtain ⟨there, ⟨op, source, computes, rfl⟩ | ⟨target, rfl⟩⟩ := execute_halts (by exact running) ran halts
  · refine ⟨there, ?_⟩
    by_cases isPop : source = .pop
    · subst isPop
      have leaves := not_stays_of_pop (there ▸ fetched) computes
      simp [leaves, Instruction.isSteady]
    · have stays := stays_of_jump fetched computes isPop stepped there
      simp [stays, Instruction.isSteady, isPop]
  · refine ⟨there, ?_⟩
    cases steady : (Instruction.jsr target).isSteady with
    | true => simp [stays_of_call fetched steady stepped there]
    | false => simp [not_stays_of_call fetched steady stepped there]

/-- A halt loop halts at once and would go on for ever. So does a routine that does nothing but call
itself, although its stack grows. -/
theorem halt_loop_and_own_call_stay :
    (∃ image after, load [.label "end", .jump "end"] = .ok image ∧ image.step .start = .ok () after ∧
      after.halted = true ∧ image.Stays after) ∧
    ∃ image after, load [.label "f", .jsr "f"] = .ok image ∧ image.step .start = .ok () after ∧
      after.halted = true ∧ after.depth = 1 ∧ image.Stays after := by
  have halts {image : Image} {after : Machine} {instruction : Instruction}
      (fetched : image.instructions[0]? = some instruction) (steady : instruction.isSteady = true)
      (stepped : image.step .start = .ok () after) (halts : after.halted = true) : image.Stays after :=
    (halting_jump_stays_iff rfl fetched stepped halts).2.mpr steady
  refine ⟨⟨_, _, rfl, rfl, rfl, ?_⟩, _, _, rfl, rfl, rfl, rfl, ?_⟩
  · exact halts rfl rfl rfl rfl
  · exact halts rfl rfl rfl rfl

/-- A routine that counts register `a` down and calls itself as its last action. -/
def lastCall : Listing :=
  [ .set (.register .a) (.literal 2),
    .jsr "f",
    .label "end",
    .jump "end",
    .label "f",
    .basic .sub (.register .a) (.literal 1),
    .basic .ifn (.register .a) (.literal 0),
    .jsr "f",
    .ret ]

/-- Whether an image halts at a return in its seventh step, and one more step would lead away. -/
private def haltsAtReturn (image : Image) : Bool :=
  match image.run 7 .start with
  | .error error before => error == .stepLimit 7 6 && !before.halted &&
    image.instructions[before.pc]? == some (.basic .set (.register .pc) .pop) &&
    match image.step before with
    | .ok _ after => after.halted && after.depth == 1 &&
      match image.carryOn 1 after with
      | .ok _ next => next.pc != before.pc
      | .error .. => false
    | .error .. => false
  | .ok .. => false

/-- The routine goes back to its own last line, which is the return itself. The machine halts there,
although a return address is still on the stack and the next execution of the line would go to it. -/
theorem return_from_last_call_halts : ∃ image before after next,
    load lastCall = .ok image ∧ image.run 7 .start = .error (.stepLimit 7 6) before ∧
      before.halted = false ∧ image.instructions[before.pc]? = some (.basic .set (.register .pc) .pop) ∧
      image.step before = .ok () after ∧ after.halted = true ∧ after.depth = 1 ∧
      image.carryOn 1 after = .ok () next ∧ next.pc ≠ before.pc := by
  obtain ⟨image, loaded⟩ : ∃ image, load lastCall = .ok image := ⟨_, rfl⟩
  have shown : (load lastCall).toOption.any haltsAtReturn = true := by decide +kernel
  simp only [loaded, Except.toOption, Option.any_some, haltsAtReturn] at shown
  cases ran : image.run 7 .start with
  | ok _ _ => simp [ran] at shown
  | error error before =>
    cases stepped : image.step before with
    | error _ _ => simp [ran, stepped] at shown
    | ok _ after =>
      cases carried : image.carryOn 1 after with
      | error _ _ => simp [ran, stepped, carried] at shown
      | ok _ next =>
        simp only [ran, stepped, carried, Bool.and_eq_true, beq_iff_eq, bne_iff_ne,
          Bool.not_eq_true'] at shown
        obtain ⟨⟨⟨rfl, running⟩, fetched⟩, ⟨halts, depth⟩, leaves⟩ := shown
        exact ⟨image, before, after, next, loaded, ran, running, fetched, stepped, halts, depth, carried,
          leaves⟩

end Image

end Dcpu
