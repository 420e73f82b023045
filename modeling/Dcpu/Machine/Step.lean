import Dcpu.Machine.Image
import Dcpu.Machine.Memory

/-! # Running instructions

The machine counts instructions, so the program counter, return addresses and labels are numbers of
instructions. The stack grows downwards from the top of the memory. A jump of an instruction to
itself halts the machine, and so does running off the end of the program.
-/

namespace Dcpu

/-- The place of a register among the eight for general use. -/
def Register.index? : Register → Option (Fin 8)
  | a => some 0
  | b => some 1
  | c => some 2
  | x => some 3
  | y => some 4
  | z => some 5
  | i => some 6
  | j => some 7
  | pc | sp => none

/-- The machine between two instructions. `depth` counts the words on the stack, and `steps` the
instructions that were run. -/
structure Machine where
  memory : Memory
  registers : Vector Word 8
  pc : Nat
  sp : Word
  depth : Nat
  steps : Nat
  halted : Bool

namespace Machine

def start : Machine where
  memory := .empty
  registers := .replicate 8 0
  pc := 0
  sp := 0
  depth := 0
  steps := 0
  halted := false

/-- The word in a register; of the program counter only the low 16 bits. -/
def register (machine : Machine) (r : Register) : Word :=
  match r.index? with
  | some index => machine.registers.get index
  | none => if r = .pc then UInt16.ofNat machine.pc else machine.sp

def setRegister (machine : Machine) (index : Fin 8) (word : Word) : Machine :=
  { machine with registers := machine.registers.set index word }

def write (machine : Machine) (address word : Word) : Machine :=
  { machine with memory := machine.memory.write address word }

def push (machine : Machine) (word : Word) : Machine :=
  { machine.write (machine.sp - 1) word with sp := machine.sp - 1, depth := machine.depth + 1 }

/-- Go on at an instruction; going on at the current one halts. -/
def jump (machine : Machine) (current : Nat) (target : Word) : Machine :=
  { machine with pc := target.toNat, halted := machine.halted || target.toNat == current }

end Machine

namespace Opcode

/-- The result of an instruction that computes, from the destination and the source. -/
def compute : Opcode → Word → Word → Word
  | add, b, a => b + a
  | sub, b, a => b - a
  | mul, b, a => b * a
  | div, b, a => b / a
  | mod, b, a => Word.remainder b a
  | and, b, a => b &&& a
  | bor, b, a => b ||| a
  | xor, b, a => b ^^^ a
  | shl, b, a => Word.shiftLeft b a
  | shr, b, a => Word.shiftRight b a
  | _, _, a => a

/-- Whether the test of a conditional instruction passes. -/
def passes : Opcode → Word → Word → Bool
  | ife, b, a => b == a
  | ifn, b, a => b != a
  | ifg, b, a => a < b
  | ifl, b, a => b < a
  | _, _, _ => true

end Opcode

/-- Steps of the machine; a failure keeps the machine as it was met. -/
abbrev Exec := EStateM MachineError Machine

namespace Exec

def pop : Exec Word := do
  let machine ← get
  if machine.depth = 0 then throw (.underflow (machine.pc - 1))
  set { machine with sp := machine.sp + 1, depth := machine.depth - 1 }
  return machine.memory.read machine.sp

def value (image : Image) : Operand → Exec Word
  | .register r => return (← get).register r
  | .indirect r => do
    let machine ← get
    return machine.memory.read (machine.register r)
  | .memory address => return (← get).memory.read address
  | .address word => return word
  | .literal word => return word
  | .label name =>
    match image.labelIndex? name with
    | some index => return UInt16.ofNat index
    | none => throw (.unknownLabel name)
  | .pop => pop
  | .push => throw .pushRead

/-- Give an operand a value, for the instruction with the given number. A value given to a number is
lost. -/
def assign (current : Nat) (operand : Operand) (word : Word) : Exec Unit :=
  match operand with
  | .register .pc => modify (·.jump current word)
  | .register .sp => modify ({ · with sp := word })
  | .register r =>
    match r.index? with
    | some index => modify (·.setRegister index word)
    | none => return
  | .indirect r => modify fun machine => machine.write (machine.register r) word
  | .memory address => modify (·.write address word)
  | .push => modify (·.push word)
  | .pop => throw .popWritten
  | .address _ | .literal _ | .label _ => return

end Exec

namespace Image

open Exec

/-- The instruction behind a skipped one: conditional instructions are skipped together with the
next. The bound is the number of instructions from `pc` on. -/
def skipFrom (image : Image) : Nat → Nat → Nat
  | 0, pc => pc
  | bound + 1, pc =>
    match image.instructions[pc]? with
    | none => pc
    | some instruction =>
      if instruction.isConditional then skipFrom image bound (pc + 1) else pc + 1

def skip (image : Image) : Exec Unit :=
  modify fun machine =>
    { machine with pc := image.skipFrom (image.instructions.size - machine.pc) machine.pc }

/-- Carry an instruction out, given its number. The source is read before the destination. -/
def execute (image : Image) (current : Nat) : Instruction → Exec Unit
  | .basic .set b a => do
    assign current b (← value image a)
  | .basic op b a => do
    let source ← value image a
    let destination ← value image b
    if op.isConditional then
      unless op.passes destination source do image.skip
    else assign current b (op.compute destination source)
  | .jsr target => do
    let target ← value image target
    modify fun machine => (machine.push (UInt16.ofNat machine.pc)).jump current target

/-- Run one instruction; a halted machine stays as it is. -/
def step (image : Image) : Exec Unit := do
  let machine ← get
  if machine.halted then return
  match image.instructions[machine.pc]? with
  | none => set { machine with halted := true }
  | some instruction =>
    set { machine with steps := machine.steps + 1, pc := machine.pc + 1 }
    image.execute machine.pc instruction

/-- Run until the machine halts, for at most `limit` instructions, of which `left` are left. -/
def runLeft (image : Image) (limit : Nat) : Nat → Exec Unit
  | 0 => do
    let machine ← get
    unless machine.halted do throw (.stepLimit limit machine.pc)
  | left + 1 => do
    if (← get).halted then return
    image.step
    image.runLeft limit left

/-- Run until the machine halts and tell the number of instructions that were run, which may be at
most `limit`. -/
def run (image : Image) (limit : Nat) : Exec Nat := do
  let before := (← get).steps
  image.runLeft limit limit
  return (← get).steps - before

end Image

end Dcpu
