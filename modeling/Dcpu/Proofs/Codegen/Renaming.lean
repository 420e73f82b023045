import Dcpu.Proofs.Codegen.Layout
import Dcpu.Proofs.Slots.Renaming
import Dcpu.Proofs.Source.Structured

/-! # Names of variables do not affect the code

A program whose variables get other names compiles to the same code, or fails with the same error, as long
as different variables keep different names and the screen stays the screen. Only the names in the program
matter, so that a renaming of them is first extended to one of all names.
-/

namespace Dcpu

namespace Source

/-- The rewording that gives variables other names. -/
def Rewording.naming (rename : String → String) : Rewording := ⟨id, rename⟩

section Congruence

variable {rename other : String → String}

mutual

theorem Expr.renaming_congr (expr : Expr) (same : ∀ name ∈ expr.names, rename name = other name) :
    expr.reworded (.naming rename) = expr.reworded (.naming other) := by
  cases expr with
  | number position value => rfl
  | name position name => simp [Expr.reworded, Rewording.naming, same name (by simp [Expr.names])]
  | index position base index =>
    simp only [Expr.names, List.forall_mem_append] at same
    simp only [Expr.reworded, base.renaming_congr same.1, index.renaming_congr same.2]
    rfl
  | call position routine => rfl
  | binary position op left right =>
    simp only [Expr.names, List.forall_mem_append] at same
    simp only [Expr.reworded, left.renaming_congr same.1, right.renaming_congr same.2]
    rfl
  | unary position op operand =>
    simp only [Expr.reworded, operand.renaming_congr same]
    rfl
  | logical position op operands =>
    simp only [Expr.reworded, renaming_congr_all operands same]
    rfl
  | compare position first stages =>
    simp only [Expr.names, List.forall_mem_append] at same
    simp only [Expr.reworded, first.renaming_congr same.1, renaming_congr_stages stages same.2]
    rfl

theorem renaming_congr_all (operands : List Expr)
    (same : ∀ name ∈ namesOfAll operands, rename name = other name) :
    rewordedAll (.naming rename) operands = rewordedAll (.naming other) operands := by
  cases operands with
  | nil => rfl
  | cons operand operands =>
    simp only [namesOfAll, List.forall_mem_append] at same
    rw [rewordedAll, rewordedAll, operand.renaming_congr same.1, renaming_congr_all operands same.2]

theorem renaming_congr_stages (stages : List (Relation × Expr))
    (same : ∀ name ∈ namesOfStages stages, rename name = other name) :
    rewordedStages (.naming rename) stages = rewordedStages (.naming other) stages := by
  cases stages with
  | nil => rfl
  | cons stage stages =>
    obtain ⟨relation, operand⟩ := stage
    simp only [namesOfStages, List.forall_mem_append] at same
    rw [rewordedStages, rewordedStages, operand.renaming_congr same.1, renaming_congr_stages stages same.2]

end

mutual

/-- Renamings that agree on the names of a statement rename it alike. -/
theorem Stmt.renaming_congr (statement : Stmt) (same : ∀ name ∈ statement.names, rename name = other name) :
    statement.reworded (.naming rename) = statement.reworded (.naming other) := by
  cases statement with
  | routine position name body =>
    simp only [Stmt.reworded, renaming_congr_block body same]
    rfl
  | ret position value =>
    cases value with
    | none => rfl
    | some value =>
      simp only [Stmt.reworded, value.renaming_congr same]
      rfl
  | branch position test body alternative =>
    simp only [Stmt.names, List.forall_mem_append] at same
    obtain ⟨⟨inTest, inBody⟩, inAlternative⟩ := same
    simp only [Stmt.reworded, test.renaming_congr inTest, renaming_congr_block body inBody,
      renaming_congr_block alternative inAlternative]
    rfl
  | whileLoop position test body =>
    simp only [Stmt.names, List.forall_mem_append] at same
    simp only [Stmt.reworded, test.renaming_congr same.1, renaming_congr_block body same.2]
    rfl
  | forLoop position init test step body =>
    simp only [Stmt.names, List.forall_mem_append] at same
    obtain ⟨⟨⟨inInit, inTest⟩, inStep⟩, inBody⟩ := same
    simp only [Stmt.reworded, init.renaming_congr inInit, test.renaming_congr inTest,
      step.renaming_congr inStep, renaming_congr_block body inBody]
    rfl
  | assign position targets value =>
    simp only [Stmt.names, List.forall_mem_append] at same
    simp only [Stmt.reworded, renaming_congr_all targets same.1, value.renaming_congr same.2]
    rfl
  | evaluate position value =>
    simp only [Stmt.reworded, value.renaming_congr same]
    rfl

theorem renaming_congr_block (statements : List Stmt)
    (same : ∀ name ∈ namesOfBlock statements, rename name = other name) :
    rewordedIn (.naming rename) statements = rewordedIn (.naming other) statements := by
  cases statements with
  | nil => rfl
  | cons statement statements =>
    simp only [namesOfBlock, List.forall_mem_append] at same
    rw [rewordedIn, rewordedIn, statement.renaming_congr same.1, renaming_congr_block statements same.2]

end

end Congruence

end Source

open Source Effects

/-- A renaming of the given names. Spellings of the screen's name stay such, and no two variables get the
same name. -/
structure Renaming (names : List String) (rename : String → String) : Prop where
  screen : ∀ name ∈ names, Slots.isScreen (rename name) = Slots.isScreen name
  injective : ∀ one ∈ names, ∀ other ∈ names, Slots.isScreen one = false →
    Slots.isScreen other = false → rename one = rename other → one = other

namespace Renaming

variable {names : List String} {rename : String → String}

theorem length_of_isScreen {name : String} (screen : Slots.isScreen name) : name.toList.length = 6 := by
  have spelled : name.toList.map Char.toLower = "screen".toList := by simpa [Slots.isScreen] using screen
  simpa using congrArg List.length spelled

/-- A tail that is longer than the name of the screen and than all names that stand for others. -/
def tail (names : List String) (rename : String → String) : List Char :=
  (names.map fun name => (rename name).toList).flatten ++ "screen_".toList

/-- A renaming of the given names as one of all names: a variable that is not among them gets a tail. -/
def extended (names : List String) (rename : String → String) (name : String) : String :=
  if name ∈ names then rename name
  else if Slots.isScreen name then name
  else String.ofList (name.toList ++ tail names rename)

/-- The tail is longer than each name that a listed name gets. -/
theorem length_lt_tail {name : String} (member : name ∈ names) :
    (rename name).toList.length < (tail names rename).length := by
  have within : (rename name).toList.Sublist (names.map fun name => (rename name).toList).flatten :=
    List.sublist_flatten_of_mem (List.mem_map_of_mem member)
  have atMost := within.length_le
  rw [tail, List.length_append]
  exact Nat.lt_of_le_of_lt atMost (Nat.lt_add_of_pos_right (by decide))

theorem isScreen_tailed (name : String) :
    Slots.isScreen (String.ofList (name.toList ++ tail names rename)) = false := by
  apply Bool.eq_false_iff.mpr
  intro screen
  have short := length_of_isScreen screen
  have seven : "screen_".toList.length = 7 := rfl
  simp only [String.toList_ofList, tail, List.length_append, seven] at short
  omega

variable (faithful : Renaming names rename)
include faithful

/-- A renaming that is extended to all names keeps the name of the screen. -/
theorem isScreen_extended (name : String) :
    Slots.isScreen (extended names rename name) = Slots.isScreen name := by
  rw [extended]
  split
  case isTrue member => exact faithful.screen name member
  case isFalse =>
    split
    case isTrue => rfl
    case isFalse ordinary => rw [isScreen_tailed, Bool.eq_false_iff.mpr ordinary]

/-- Variables are told apart: given names by the renaming, the others by what stands before the tail, and
the ones from the others by their lengths. -/
theorem extended_injective {one other : String} (oneOrdinary : Slots.isScreen one = false)
    (otherOrdinary : Slots.isScreen other = false)
    (same : extended names rename one = extended names rename other) : one = other := by
  have apart {given : String} (member : given ∈ names) (name : String) :
      rename given ≠ String.ofList (name.toList ++ tail names rename) := by
    intro same
    have longer : (rename given).toList.length < (tail names rename).length := length_lt_tail member
    rw [same, String.toList_ofList, List.length_append] at longer
    omega
  simp only [extended, oneOrdinary, otherOrdinary, Bool.false_eq_true, ↓reduceIte] at same
  by_cases oneGiven : one ∈ names <;> by_cases otherGiven : other ∈ names
  · simp only [oneGiven, otherGiven, ↓reduceIte] at same
    exact faithful.injective one oneGiven other otherGiven oneOrdinary otherOrdinary same
  · simp only [oneGiven, otherGiven, ↓reduceIte] at same
    exact absurd same (apart oneGiven other)
  · simp only [oneGiven, otherGiven, ↓reduceIte] at same
    exact absurd same.symm (apart otherGiven one)
  · simp only [oneGiven, otherGiven, ↓reduceIte, String.ofList_inj, List.append_cancel_right_eq] at same
    exact String.toList_inj.mp same

omit faithful in
/-- The names in the tables of the allocator, to which spellings of the screen's name never come. -/
def listed (names : List String) (rename : String → String) (name : String) : String :=
  if Slots.isScreen name then name else extended names rename name

theorem listed_injective : Function.Injective (listed names rename) := by
  intro one other same
  have screens := congrArg Slots.isScreen same
  simp only [listed] at same screens
  cases oneScreen : Slots.isScreen one with
  | true =>
    cases otherScreen : Slots.isScreen other with
    | true => simpa [oneScreen, otherScreen] using same
    | false => simp [oneScreen, otherScreen, faithful.isScreen_extended] at screens
  | false =>
    cases otherScreen : Slots.isScreen other with
    | true => simp [oneScreen, otherScreen, faithful.isScreen_extended] at screens
    | false =>
      simp only [oneScreen, otherScreen, Bool.false_eq_true, ↓reduceIte] at same
      exact faithful.extended_injective oneScreen otherScreen same

def twin : Twin where
  wording := .naming (extended names rename)
  address := id
  slots := Slots.underNames (listed names rename)
  slot _ := True
  blames := rfl
  acquire := Slots.acquire_renamed.imp fun _ _ same => ⟨trivial, same.symm⟩
  release := by
    rintro slots _ address rfl _
    rfl
  openChild := Slots.openChild_renamed
  close := Slots.close_renamed faithful.listed_injective
  special := by
    rintro slots _ rfl name
    change (if Slots.isScreen (extended names rename name) then some slots.screen else none) = _
    rw [faithful.isScreen_extended, Option.map_id]
    rfl
  resolve := by
    intro name scope ordinary
    have renamed : (Rewording.naming (extended names rename)).name name = listed names rename name := by
      simp [Rewording.naming, listed, ordinary]
    rw [renamed]
    apply (Slots.resolve_renamed faithful.listed_injective name scope).imp
    rintro binding _ rfl
    rfl

end Renaming

/-- Variables with other names have the same code, or the same error at the same position. -/
theorem compileProgram_ignores_names {program : Program} {rename : String → String}
    (screen : ∀ name ∈ namesOfBlock program, Slots.isScreen (rename name) = Slots.isScreen name)
    (injective : ∀ one ∈ namesOfBlock program, ∀ other ∈ namesOfBlock program,
      Slots.isScreen one = false → Slots.isScreen other = false → rename one = rename other → one = other)
    (settings : Settings) :
    (compileProgram settings (rewordedIn (.naming rename) program)).result =
      (compileProgram settings program).result := by
  let faithful : Renaming (namesOfBlock program) rename := ⟨screen, injective⟩
  cases valid : settings.validate with
  | error error => simp [compileProgram, valid]
  | ok =>
    have alike : (Slots.underNames (Renaming.listed (namesOfBlock program) rename)).alike
        (Context.new settings).slots (Context.new settings).slots := Slots.new_renamed _ _ _
    have ended := faithful.twin.compile_result alike rfl settings.haltLoop program
    have worded : rewordedIn faithful.twin.wording program = rewordedIn (.naming rename) program :=
      renaming_congr_block program fun name member => if_pos member
    rw [worded] at ended
    rw [result_compileProgram valid, result_compileProgram valid]
    cases compiled : ((Context.new settings).compile settings.haltLoop program).result with
    | ok listing =>
      rw [compiled] at ended
      exact ended.trans (congrArg _ listing.readdressed_id)
    | error error =>
      rw [compiled] at ended
      obtain ⟨_, _, _, impossible⟩ | failed := ended
      · cases impossible
      · exact failed.trans (congrArg _ error.blamedOn_id)

/-- Three variables change names in turn, and the screen gets another spelling. -/
theorem compileProgram_ignores_names_handover :
    let rename := fun name => if name = "x" then "y" else if name = "y" then "z" else
      if name = "z" then "x" else "SCREEN"
    namesOfBlock handover = ["x", "y", "screen", "z", "x"] ∧
      namesOfBlock (rewordedIn (.naming rename) handover) = ["y", "z", "SCREEN", "x", "y"] ∧
      (compileProgram ⟨0x10, 0x12, 0x8000, true⟩ (rewordedIn (.naming rename) handover)).result =
        .ok (handoverCode 0x10 0x11 0x12) := by
  intro rename
  have compiled : (compileProgram ⟨0x10, 0x12, 0x8000, true⟩ handover).result =
      .ok (handoverCode 0x10 0x11 0x12) := by decide +kernel
  refine ⟨by decide, by decide, ?_⟩
  rw [compileProgram_ignores_names (by decide) (by decide), compiled]

end Dcpu
