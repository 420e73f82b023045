import Dcpu.Machine.Step
import Dcpu.Proofs.Effects

/-! # Running in pieces

A run is cut into pieces that each take a number of steps from a machine that has not halted. Code
that neither calls nor touches the stack moves a machine between points: an instruction, a memory,
and a word in register `a`; everything else of the machine stays.
-/

namespace Dcpu

open Effects

/-- Where a machine stands, as far as code without calls can tell: the next instruction, the memory,
and the word in register `a`. -/
structure Point where
  pc : Nat
  memory : Memory
  a : Word

namespace Machine

def point (machine : Machine) : Point :=
  ⟨machine.pc, machine.memory, machine.register .a⟩

/-- The machine moved to a point in the given number of steps. -/
def moved (machine : Machine) (point : Point) (count : Nat) : Machine :=
  { machine.setRegister ⟨0, by decide⟩ point.a with
    memory := point.memory
    pc := point.pc
    steps := machine.steps + count }

theorem register_a (machine : Machine) : machine.register .a = machine.registers[0] := rfl

@[simp] theorem point_moved (machine : Machine) (point : Point) (count : Nat) :
    (machine.moved point count).point = point := by
  simp [Machine.point, moved, setRegister, register_a]

@[simp] theorem halted_moved (machine : Machine) (point : Point) (count : Nat) :
    (machine.moved point count).halted = machine.halted := rfl

@[simp] theorem moved_moved (machine : Machine) (point other : Point) (count more : Nat) :
    (machine.moved point count).moved other more = machine.moved other (count + more) := by
  simp [moved, setRegister, Nat.add_assoc]

theorem moved_self (machine : Machine) : machine.moved machine.point 0 = machine := by
  simp [moved, setRegister, Machine.point, register_a]

end Machine

namespace Image

/-- The machine goes from one to another in a number of steps, not being halted before any of
them. -/
inductive Runs (image : Image) : Nat → Machine → Machine → Prop where
  | done (machine : Machine) : Runs image 0 machine machine
  | next {count : Nat} {before middle after : Machine} : before.halted = false →
      image.step before = .ok () middle → Runs image count middle after →
      Runs image (count + 1) before after

namespace Runs

variable {image : Image} {count more : Nat} {before middle after : Machine}

/-- Runs one after the other are a run. -/
theorem trans (first : image.Runs count before middle) (second : image.Runs more middle after) :
    image.Runs (count + more) before after := by
  induction first with
  | done machine => simpa using second
  | next running step _ ih =>
    rw [Nat.add_right_comm]
    exact .next running step (ih second)

/-- A budgeted run goes on with what is left of the budget. -/
theorem runLeft_add (runs : image.Runs count before after) (limit left : Nat) :
    image.runLeft limit (count + left) before = image.runLeft limit left after := by
  induction runs with
  | done machine => simp
  | next running step _ ih =>
    rw [Nat.add_right_comm, runLeft]
    simp [bind_apply, running, step, ih]

/-- A run of more steps than the budget allows is given up. -/
theorem runLeft_of_lt (runs : image.Runs count before after) (limit : Nat) {left : Nat}
    (short : left < count) : ∃ machine,
      image.runLeft limit left before = .error (.stepLimit limit machine.pc) machine := by
  induction runs generalizing left with
  | done machine => exact absurd short (Nat.not_lt_zero _)
  | @next count before middle after running step _ ih =>
    cases left with
    | zero => exact ⟨before, by simp [runLeft, bind_apply, running]⟩
    | succ left =>
      obtain ⟨machine, givenUp⟩ := ih (Nat.lt_of_succ_lt_succ short)
      exact ⟨machine, by simp [runLeft, bind_apply, running, step, givenUp]⟩

end Runs

theorem runLeft_of_halted (image : Image) (limit left : Nat) {machine : Machine}
    (halted : machine.halted = true) : image.runLeft limit left machine = .ok () machine := by
  cases left with
  | zero => simp [runLeft, bind_apply, halted]
  | succ left => simp [runLeft, bind_apply, halted]

namespace Runs

variable {image : Image} {count limit : Nat} {before after : Machine}

/-- A run that comes to a halt within its budget tells its steps. -/
theorem run_of_halted (runs : image.Runs count before after) (halted : after.halted = true)
    (steps : after.steps = before.steps + count) (enough : count ≤ limit) :
    image.run limit before = .ok count after := by
  obtain ⟨left, rfl⟩ := Nat.exists_eq_add_of_le enough
  simp [run, bind_apply, map_apply, runs.runLeft_add, runLeft_of_halted _ _ _ halted, steps]

/-- A run with more steps than its budget is given up. -/
theorem run_of_lt (runs : image.Runs count before after) (short : limit < count) : ∃ machine,
    image.run limit before = .error (.stepLimit limit machine.pc) machine := by
  obtain ⟨machine, givenUp⟩ := runs.runLeft_of_lt limit short
  exact ⟨machine, by simp [run, bind_apply, givenUp]⟩

end Runs

/-- The image takes every machine at one point to another point in a number of steps. -/
def Reaches (image : Image) (count : Nat) (source target : Point) : Prop :=
  ∀ machine : Machine, machine.halted = false → machine.point = source →
    image.Runs count machine (machine.moved target count)

namespace Reaches

variable {image : Image} {count more : Nat} {source middle target : Point}

theorem refl (image : Image) (point : Point) : image.Reaches 0 point point := by
  rintro machine running rfl
  rw [machine.moved_self]
  exact .done machine

theorem trans (first : image.Reaches count source middle)
    (second : image.Reaches more middle target) : image.Reaches (count + more) source target := by
  intro machine running stands
  have rest := second (machine.moved middle count) (by simpa using running) (by simp)
  rw [Machine.moved_moved] at rest
  exact (first machine running stands).trans rest

end Reaches

/-- The image takes at least the given number of steps from a point to one where a condition
holds. -/
def Leads (image : Image) (least : Nat) (source : Point) (holds : Point → Prop) : Prop :=
  ∃ count target, least ≤ count ∧ image.Reaches count source target ∧ holds target

namespace Leads

variable {image : Image} {least more : Nat} {source : Point} {holds wanted : Point → Prop}

theorem here (image : Image) {point : Point} (now : holds point) : image.Leads 0 point holds :=
  ⟨0, point, Nat.le_refl 0, .refl image point, now⟩

theorem weaken (leads : image.Leads least source holds) (fewer : more ≤ least)
    (weaker : ∀ point, holds point → wanted point) : image.Leads more source wanted := by
  obtain ⟨count, target, enough, reaches, holdsThere⟩ := leads
  exact ⟨count, target, by omega, reaches, weaker target holdsThere⟩

/-- A run that leads on from where another has led is led to by both. -/
theorem andThen (first : image.Leads least source holds)
    (rest : ∀ point, holds point → image.Leads more point wanted) : image.Leads more source wanted := by
  obtain ⟨count, middle, _, reaches, holdsThere⟩ := first
  obtain ⟨further, target, enough, reachesOn, wantedThere⟩ := rest middle holdsThere
  exact ⟨count + further, target, by omega, reaches.trans reachesOn, wantedThere⟩

/-- A step in front of a run counts as one of its steps. -/
theorem counted {middle : Point} (reaches : image.Reaches 1 source middle)
    (rest : image.Leads least middle holds) : image.Leads (least + 1) source holds := by
  obtain ⟨count, target, enough, reachesOn, holdsThere⟩ := rest
  exact ⟨1 + count, target, by omega, reaches.trans reachesOn, holdsThere⟩

theorem step {middle : Point} (reaches : image.Reaches 1 source middle)
    (rest : image.Leads least middle holds) : image.Leads least source holds :=
  (counted reaches rest).weaken (Nat.le_succ _) fun _ now => now

end Leads

end Image

end Dcpu
