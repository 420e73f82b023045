import Dcpu.Proofs.Codegen.Bindings
import Dcpu.Proofs.Codegen.Blocks

/-! # What the code of a called routine does to variables

Variables and intermediate results of all routines share one range of addresses, and an address is given out again
when its scope is closed. The code of a routine therefore has the address of a variable for nothing but the
variable's name, if the variable was live where the code of the routine begins. A variable that was made later, or
whose scope was closed before, may share its address with anything the routine uses, whether or not a call is
warned of.
-/

namespace Dcpu

open Source Effects Gen

variable {settings : Settings} {context : Context} {haltLoop : Bool} {program : Program} {routines : List String}
  {scope : ScopeId}

/-- What the code of a statement leaves, with lines that are explained by the names in the statement. -/
private theorem Begins.records {statement : Stmt} {statements : List Stmt} {entry : Emission}
    (reached : context.Reached settings)
    (begins : Begins context program routines scope (statement :: statements) entry) :
    ∃ events, entry.Records (context.ledgerAt entry.trail.toList) scope events
        ((stmtCode routines scope statement).after entry) ∧
      (context.ledgerAt entry.trail.toList).Spells statement.mentions events := by
  have accounted := begins.accounted reached.flat.1
  obtain ⟨events, records, binds⟩ := blockCode_names routines [] scope [statement] _ entry
    (accounted.sound reached.sound) accounted.mirrors (by simp)
  rw [blockCode_singleton] at records
  refine ⟨events, records, ?_⟩
  simpa [mentionsIn] using binds.spells

end Dcpu
