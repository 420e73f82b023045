import Dcpu.Proofs.Machine.Failures

/-! # Budgets of runs

A run with a budget stops when the machine halts, when a step fails, or when the budget is used up. In
the last case exactly as many instructions were run as the budget allows, so that a run can be cut into
pieces. The end of the program is only noticed by a further step, which runs no instruction but needs a
budget.
-/

namespace Dcpu

open Effects

namespace Image

section Counting

variable {image : Image} {before middle after : Machine}

theorem value_steps {operand : Operand} {word : Word}
    (read : Exec.value image operand before = .ok word after) : after.steps = before.steps := by
  rw [value_popped read]

theorem assign_steps {current : Nat} {operand : Operand} {word : Word}
    (ran : Exec.assign current operand word before = .ok () after) : after.steps = before.steps := by
  cases operand with
  | pop => cases ran
  | register r =>
    cases r <;>
    · cases ran
      rfl
  | _ =>
    cases ran
    rfl

/-- Carrying an instruction out leaves the count of instructions alone. -/
theorem execute_steps {current : Nat} {instruction : Instruction}
    (ran : image.execute current instruction before = .ok () after) : after.steps = before.steps := by
  cases instruction with
  | jsr target =>
    obtain ⟨word, middle, read, jumped⟩ := bind_eq_ok_iff.mp ran
    cases jumped
    exact (value_steps read : middle.steps = before.steps)
  | basic op b a =>
    obtain ⟨word, middle, read, ⟨_, assigned⟩ | ⟨_, _, further, readToo, ⟨_, _, rfl⟩ | ⟨_, assigned⟩⟩⟩ :=
      execute_basic_eq_ok ran
    · rw [assign_steps assigned, value_steps read]
    · exact (value_steps readToo).trans (value_steps read)
    · rw [assign_steps assigned, value_steps readToo, value_steps read]

/-- What a step of a running machine does: it counts and carries out the next instruction, which can only
halt the machine by going to itself, or it halts behind the end of the program. -/
theorem step_cases (running : before.halted = false) (stepped : image.step before = .ok () after) :
    (before.pc < image.instructions.size ∧ after.steps = before.steps + 1 ∧
        (after.halted = true → after.pc = before.pc)) ∨
      (image.instructions.size ≤ before.pc ∧ after = { before with halted := true }) := by
  cases fetched : image.instructions[before.pc]? with
  | none =>
    simp only [step, bind_apply, get_apply, running, Bool.false_eq_true, ↓reduceIte, fetched, set_apply]
      at stepped
    cases stepped
    exact .inr ⟨Array.getElem?_eq_none_iff.mp fetched, rfl⟩
  | some instruction =>
    rw [image.step_fetched before running fetched] at stepped
    obtain ⟨inside, _⟩ := Array.getElem?_eq_some_iff.mp fetched
    exact .inl ⟨inside, execute_steps stepped, fun halts => (execute_halts (by exact running) stepped halts).1⟩

end Counting

section Stops

variable {image : Image} {count limit : Nat} {before middle after : Machine}

namespace Runs

theorem steps_le (runs : image.Runs count before after) : before.steps ≤ after.steps := by
  induction runs with
  | done machine => exact Nat.le_refl _
  | next running stepped _ ih =>
    obtain ⟨_, counted, _⟩ | ⟨_, rfl⟩ := step_cases running stepped
    · omega
    · exact ih

/-- A machine that has halted does not run on. -/
theorem eq_of_halted (runs : image.Runs count before after) (halted : before.halted = true) :
    count = 0 ∧ after = before := by
  cases runs with
  | done => exact ⟨rfl, rfl⟩
  | next running =>
    rw [halted] at running
    cases running

/-- As long as the machine has not halted, each step is an instruction. -/
theorem steps_eq (runs : image.Runs count before after) (running : after.halted = false) :
    after.steps = before.steps + count := by
  induction runs with
  | done machine => rfl
  | next runningBefore stepped rest ih =>
    obtain ⟨_, counted, _⟩ | ⟨_, rfl⟩ := step_cases runningBefore stepped
    · have := ih running
      omega
    · obtain ⟨_, rfl⟩ := rest.eq_of_halted rfl
      cases running

/-- The last of some steps is one of a machine that has not halted. -/
theorem last (runs : image.Runs (count + 1) before after) :
    ∃ middle, image.Runs count before middle ∧ middle.halted = false ∧ image.step middle = .ok () after := by
  induction count generalizing before with
  | zero =>
    cases runs with
    | next running stepped rest =>
      cases rest
      exact ⟨before, .done before, running, stepped⟩
  | succ count ih =>
    cases runs with
    | next running stepped rest =>
      obtain ⟨middle, first, runningThere, lastStep⟩ := ih rest
      exact ⟨middle, .next running stepped first, runningThere, lastStep⟩

/-- A machine that has come to a halt had halted before, has gone to its last instruction again, or is behind
the end of the program, where the last step ran no instruction. -/
theorem halted_cases (runs : image.Runs count before after) (halted : after.halted = true) :
    (before.halted = true ∧ after = before) ∨
      (before.halted = false ∧ after.pc < image.instructions.size ∧ after.steps = before.steps + count) ∨
      (before.halted = false ∧ image.instructions.size ≤ after.pc ∧ ∃ fewer, count = fewer + 1 ∧
        after.steps = before.steps + fewer ∧ image.Runs fewer before after.awake) := by
  cases count with
  | zero =>
    cases runs
    exact .inl ⟨halted, rfl⟩
  | succ fewer =>
    obtain ⟨middle, runsThere, running, stepped⟩ := runs.last
    have runningBefore : before.halted = false := by
      cases runs with
      | next running => exact running
    have counted := runsThere.steps_eq running
    obtain ⟨inside, countedLast, stays⟩ | ⟨behind, rfl⟩ := step_cases running stepped
    · exact .inr (.inl ⟨runningBefore, stays halted ▸ inside, by omega⟩)
    · have woken : Machine.awake { middle with halted := true } = middle := middle.awake_of_running running
      exact .inr (.inr ⟨runningBefore, behind, fewer, rfl, counted, woken.symm ▸ runsThere⟩)

end Runs

/-- How a run with a budget stops, and with which result: the machine halts, it still runs when the budget
is used up, or a step fails. -/
inductive Stops (image : Image) (limit : Nat) (before : Machine) :
    EStateM.Result MachineError Machine Nat → Prop where
  | halt {count : Nat} {after : Machine} : count ≤ limit → image.Runs count before after →
      after.halted = true → Stops image limit before (.ok (after.steps - before.steps) after)
  | usedUp {after : Machine} : image.Runs limit before after → after.halted = false →
      Stops image limit before (.error (.stepLimit limit after.pc) after)
  | fault {count : Nat} {middle after : Machine} {error : MachineError} : count < limit →
      image.Runs count before middle → middle.halted = false → image.step middle = .error error after →
      Stops image limit before (.error error after)

/-- A run stops in one way only. -/
theorem Stops.run_eq {result : EStateM.Result MachineError Machine Nat}
    (stops : image.Stops limit before result) : image.run limit before = result := by
  cases stops with
  | halt within runs halted =>
    obtain ⟨left, rfl⟩ := Nat.exists_eq_add_of_le within
    simp [run, bind_apply, map_apply, runs.runLeft_add, runLeft_of_halted _ _ _ halted]
  | @usedUp after runs running =>
    have nothingLeft : image.runLeft limit limit before = image.runLeft limit 0 after := runs.runLeft_add limit 0
    simp [run, bind_apply, nothingLeft, runLeft, running]
  | @fault count middle after error within runs running failed =>
    obtain ⟨left, rfl⟩ := Nat.exists_eq_add_of_lt within
    have fails : image.runLeft (count + left + 1) (count + left + 1) before = .error error after := by
      rw [Nat.add_assoc, runs.runLeft_add]
      simp [runLeft, bind_apply, running, failed]
    simp [run, bind_apply, fails]

/-- A run that begins with a step goes on like a run from behind it. -/
theorem exists_stops_of_step (running : before.halted = false) (stepped : image.step before = .ok () middle)
    {result : EStateM.Result MachineError Machine Nat} (stops : image.Stops limit middle result) :
    ∃ result, image.Stops (limit + 1) before result := by
  cases stops with
  | halt within runs halted => exact ⟨_, .halt (Nat.succ_le_succ within) (.next running stepped runs) halted⟩
  | usedUp runs runningThere => exact ⟨_, .usedUp (.next running stepped runs) runningThere⟩
  | fault within runs runningThere failed =>
    exact ⟨_, .fault (Nat.succ_lt_succ within) (.next running stepped runs) runningThere failed⟩

/-- With a limit each run stops. -/
theorem exists_stops (image : Image) (limit : Nat) (before : Machine) :
    ∃ result, image.Stops limit before result := by
  by_cases halted : before.halted = true
  · exact ⟨_, .halt (Nat.zero_le _) (.done before) halted⟩
  have running : before.halted = false := Bool.eq_false_iff.mpr halted
  induction limit generalizing before with
  | zero => exact ⟨_, .usedUp (.done before) running⟩
  | succ limit ih =>
    cases stepped : image.step before with
    | error error after => exact ⟨_, .fault (Nat.succ_pos _) (.done before) running stepped⟩
    | ok _ middle =>
      by_cases halts : middle.halted = true
      · exact exists_stops_of_step running stepped (.halt (Nat.zero_le _) (.done middle) halts)
      · obtain ⟨result, stops⟩ := ih middle halts (Bool.eq_false_iff.mpr halts)
        exact exists_stops_of_step running stepped stops

/-- Every run stops in one of the given ways. -/
theorem run_stops (image : Image) (limit : Nat) (before : Machine) :
    image.Stops limit before (image.run limit before) := by
  obtain ⟨result, stops⟩ := image.exists_stops limit before
  rwa [stops.run_eq]

/-- A run that comes to its end has halted the machine within its budget. -/
theorem of_run_eq_ok {total : Nat} (ran : image.run limit before = .ok total after) :
    after.halted = true ∧ total = after.steps - before.steps ∧
      ∃ count ≤ limit, image.Runs count before after := by
  have stops := image.run_stops limit before
  rw [ran] at stops
  cases stops with
  | halt within runs halted => exact ⟨halted, rfl, _, within, runs⟩

/-- Only the budget is a reason to give up: a step never fails for it. -/
theorem of_run_eq_stepLimit {named pc : Nat} (ran : image.run limit before = .error (.stepLimit named pc) after) :
    named = limit ∧ pc = after.pc ∧ after.halted = false ∧ image.Runs limit before after := by
  have stops := image.run_stops limit before
  rw [ran] at stops
  cases stops with
  | usedUp runs running => exact ⟨rfl, rfl, running, runs⟩
  | fault _ _ _ failed =>
    obtain ⟨_, _, _, impossible⟩ := step_eq_error failed
    cases impossible with
    | read _ fault => cases fault

/-- Any other failure is that of a step. -/
theorem of_run_eq_error {error : MachineError} (ran : image.run limit before = .error error after)
    (other : ∀ named pc, error ≠ .stepLimit named pc) : ∃ count < limit, ∃ middle,
      image.Runs count before middle ∧ middle.halted = false ∧ image.step middle = .error error after := by
  have stops := image.run_stops limit before
  rw [ran] at stops
  cases stops with
  | usedUp => exact absurd rfl (other _ _)
  | fault within runs running failed => exact ⟨_, within, _, runs, running, failed⟩

end Stops

/-- The result of a run, told by a run with the same end that began some instructions earlier: these count
as run, and as part of the budget. -/
def resumed (earlier : Nat) :
    EStateM.Result MachineError Machine Nat → EStateM.Result MachineError Machine Nat
  | .ok count after => .ok (earlier + count) after
  | .error (.stepLimit limit pc) after => .error (.stepLimit (earlier + limit) pc) after
  | .error error after => .error error after

/-- A run goes on where a run with a smaller budget has given up. -/
theorem run_add_of_runs {image : Image} {first : Nat} {before middle : Machine}
    (runs : image.Runs first before middle) (running : middle.halted = false) (second : Nat) :
    image.run (first + second) before = resumed first (image.run second middle) := by
  have counted := runs.steps_eq running
  have stops := image.run_stops second middle
  generalize image.run second middle = result at stops
  cases stops with
  | @halt _ after within rest halted =>
    have later := rest.steps_le
    have total : after.steps - before.steps = first + (after.steps - middle.steps) := by omega
    rw [(Stops.halt (Nat.add_le_add_left within first) (runs.trans rest) halted).run_eq, total, resumed]
  | usedUp rest runningThere => exact (Stops.usedUp (runs.trans rest) runningThere).run_eq
  | fault within rest runningThere failed =>
    rw [(Stops.fault (Nat.add_lt_add_left within first) (runs.trans rest) runningThere failed).run_eq]
    obtain ⟨_, _, _, reason⟩ := step_eq_error failed
    cases reason with
    | popWritten => rfl
    | read _ reason => cases reason <;> rfl

/-- Running in pieces is running at once. A run that comes to its end or fails in a step does the same with
a larger budget. Where a run uses its budget up, a run with a larger budget goes on as a run with the rest
of the budget does from there. -/
theorem run_in_pieces (image : Image) (before : Machine) (first second : Nat) :
    (∀ count after, image.run first before = .ok count after →
      image.run (first + second) before = .ok count after) ∧
    (∀ limit pc middle, image.run first before = .error (.stepLimit limit pc) middle →
      image.run (first + second) before = resumed first (image.run second middle)) ∧
    ∀ error after, (∀ limit pc, error ≠ .stepLimit limit pc) → image.run first before = .error error after →
      image.run (first + second) before = .error error after := by
  refine ⟨fun count after ran => ?_, fun limit pc middle ran => ?_, fun error after other ran => ?_⟩
  · obtain ⟨halted, rfl, count, within, runs⟩ := of_run_eq_ok ran
    exact (Stops.halt (Nat.le_add_right_of_le within) runs halted).run_eq
  · obtain ⟨_, _, running, runs⟩ := of_run_eq_stepLimit ran
    exact run_add_of_runs runs running second
  · obtain ⟨count, within, middle, runs, running, failed⟩ := of_run_eq_error ran other
    exact (Stops.fault (Nat.lt_add_right second within) runs running failed).run_eq

/-- Two copies end the program. A first piece stops between them, a second one comes to the end, and a
return without a call fails in either. -/
theorem run_in_pieces_of_copies :
    (∃ image middle after, load [.set (.register .a) (.literal 1), .set (.register .b) (.literal 2)] = .ok image ∧
      image.run 1 .start = .error (.stepLimit 1 1) middle ∧ image.run 2 middle = .ok 1 after ∧
      image.run (1 + 2) .start = .ok (1 + 1) after ∧ image.run (1 + 2 + 5) .start = .ok (1 + 1) after) ∧
    ∃ image after, load [.ret] = .ok image ∧ image.run 1 .start = .error (.underflow 0) after ∧
      image.run (1 + 2) .start = .error (.underflow 0) after := by
  have joined {image : Image} {middle after : Machine}
      (first : image.run 1 .start = .error (.stepLimit 1 1) middle) (second : image.run 2 middle = .ok 1 after) :
      image.run (1 + 2) .start = .ok (1 + 1) after := by
    rw [(run_in_pieces image .start 1 2).2.1 1 1 middle first, second, resumed]
  refine ⟨⟨_, _, _, rfl, rfl, rfl, ?_, ?_⟩, _, _, rfl, rfl, ?_⟩
  · exact joined rfl rfl
  · exact (run_in_pieces _ .start (1 + 2) 5).1 _ _ rfl
  · exact (run_in_pieces _ .start 1 2).2.2 _ _ (by simp) rfl

/-- The number of instructions that a run tells is a sufficient budget exactly if the machine had halted
before or has not halted behind the end of the program. Behind the end this budget is used up while the
machine has not halted yet, and a budget of one instruction more is sufficient. A run is given up only
after as many instructions as its budget allows, at a further instruction or behind the end. -/
theorem run_count_suffices_iff (image : Image) (before : Machine) (limit : Nat) :
    (∀ count after, image.run limit before = .ok count after →
      (image.run count before = .ok count after ↔
        before.halted = true ∨ after.pc < image.instructions.size) ∧
      (before.halted = false → image.instructions.size ≤ after.pc →
        image.run count before = .error (.stepLimit count after.pc) after.awake) ∧
      (∀ budget, count < budget → image.run budget before = .ok count after) ∧
      ∀ budget < count, ∃ stuck, image.run budget before = .error (.stepLimit budget stuck.pc) stuck) ∧
    ∀ named pc stuck, image.run limit before = .error (.stepLimit named pc) stuck →
      stuck.steps = before.steps + limit ∧ stuck.halted = false ∧
        (stuck.pc < image.instructions.size ∨
          image.run (limit + 1) before = .ok limit { stuck with halted := true }) := by
  refine ⟨fun count after ran => ?_, fun named pc stuck ran => ?_⟩
  · obtain ⟨halted, rfl, taken, _, runs⟩ := of_run_eq_ok ran
    have enough (budget : Nat) (within : taken ≤ budget) :
        image.run budget before = .ok (after.steps - before.steps) after := (Stops.halt within runs halted).run_eq
    obtain ⟨haltedBefore, rfl⟩ | ⟨running, inside, counted⟩ |
      ⟨running, behind, fewer, rfl, counted, runsThere⟩ := runs.halted_cases halted
    · obtain ⟨rfl, _⟩ := runs.eq_of_halted haltedBefore
      simp [haltedBefore, enough]
    · have told : after.steps - before.steps = taken := by omega
      rw [told] at enough ⊢
      refine ⟨by simp [enough, inside], fun _ behind => by omega, fun budget more => enough budget more.le, ?_⟩
      exact fun budget short => runs.run_of_lt short
    · have told : after.steps - before.steps = fewer := by omega
      have givenUp : image.run fewer before = .error (.stepLimit fewer after.pc) after.awake :=
        (Stops.usedUp runsThere rfl).run_eq
      rw [told] at enough ⊢
      refine ⟨by simp [givenUp, running, behind], fun _ _ => givenUp, fun budget more => enough budget more, ?_⟩
      exact fun budget short => runsThere.run_of_lt short
  · obtain ⟨_, _, running, runs⟩ := of_run_eq_stepLimit ran
    refine ⟨runs.steps_eq running, running, (Nat.lt_or_ge stuck.pc image.instructions.size).imp_right fun behind => ?_⟩
    have stepped : image.step stuck = .ok () { stuck with halted := true } := by
      simp [step, bind_apply, running, Array.getElem?_eq_none behind]
    have halts := (Stops.halt (Nat.le_refl _) (runs.trans (.next running stepped (.done _))) rfl).run_eq
    have counted := runs.steps_eq running
    rw [halts, counted, Nat.add_sub_cancel_left]

/-- A single copy runs off the end of the program behind it, a halt loop does not. -/
theorem run_count_suffices_for_halt_loop :
    (∃ image after, load [.set (.register .a) (.literal 1)] = .ok image ∧ image.run 10 .start = .ok 1 after ∧
      image.run 2 .start = .ok 1 after ∧
      image.run 1 .start = .error (.stepLimit 1 after.pc) after.awake) ∧
    ∃ image after, load [.label "end", .jump "end"] = .ok image ∧ image.run 10 .start = .ok 1 after ∧
      image.run 1 .start = .ok 1 after := by
  have runsOff {image : Image} {after : Machine} (ran : image.run 10 .start = .ok 1 after)
      (behind : image.instructions.size ≤ after.pc) : image.run 2 .start = .ok 1 after ∧
        image.run 1 .start = .error (.stepLimit 1 after.pc) after.awake := by
    obtain ⟨_, atEnd, more, _⟩ := (run_count_suffices_iff image .start 10).1 1 after ran
    exact ⟨more 2 (by decide), atEnd rfl behind⟩
  have loops {image : Image} {after : Machine} (ran : image.run 10 .start = .ok 1 after)
      (inside : after.pc < image.instructions.size) : image.run 1 .start = .ok 1 after :=
    ((run_count_suffices_iff image .start 10).1 1 after ran).1.mpr (.inr inside)
  exact ⟨⟨_, _, rfl, rfl, runsOff rfl (by decide)⟩, _, _, rfl, rfl, loops rfl (by decide)⟩

/-- A program of one instruction comes to its end after one instruction, but a budget of one instruction
is used up before the end is noticed. -/
theorem end_of_program_needs_budget : ∃ image after stuck, load [.set (.register .a) (.literal 1)] = .ok image ∧
    image.run 10 .start = .ok 1 after ∧ after.halted = true ∧
    image.run 1 .start = .error (.stepLimit 1 1) stuck ∧ stuck.halted = false :=
  ⟨_, _, _, rfl, rfl, rfl, rfl, rfl⟩

end Image

end Dcpu
