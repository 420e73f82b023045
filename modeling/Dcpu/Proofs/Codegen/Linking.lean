import Dcpu.Proofs.Codegen.Labels
import Dcpu.Proofs.Codegen.Plans
import Dcpu.Proofs.Source.Routines
import Mathlib.Data.List.Nodup

/-! # What emitted code defines and names

The label lines of emitted code are those of the routines in it and labels that were generated for it,
each of them once. Instructions name generated labels of the same code, and the routines that it calls.
-/

namespace Dcpu

open Source Effects Gen

namespace Mark

/-- The stems whose tags have a label for a place. -/
def stems : Mark → List String
  | start => [Tag.loop]
  | ending => [Tag.conditional, Tag.loop]
  | alternative => [Tag.conditional]
  | skip => [Tag.logical]
  | done => [Tag.comparison]

theorem labels_of_mem_stems {mark : Mark} {stem : String} (fits : stem ∈ mark.stems) :
    Tag.Labels stem mark.label := by
  cases mark with
  | start =>
    obtain rfl := List.mem_singleton.mp fits
    exact Tag.labels_start
  | ending =>
    obtain rfl | fits := List.mem_cons.mp fits
    · exact Tag.labels_ending_conditional
    · obtain rfl := List.mem_singleton.mp fits
      exact Tag.labels_ending_loop
  | alternative =>
    obtain rfl := List.mem_singleton.mp fits
    exact Tag.labels_alternative
  | skip =>
    obtain rfl := List.mem_singleton.mp fits
    exact Tag.labels_skip
  | done =>
    obtain rfl := List.mem_singleton.mp fits
    exact Tag.labels_done

theorem label_injective (tag : String) : Function.Injective (Mark.label · tag) := by
  intro first second same
  cases first <;> cases second <;>
    simp_all [Mark.label, Tag.start, Tag.ending, Tag.alternative, Tag.skip, Tag.done]

end Mark

def callTarget (name : String) : String :=
  if name = exitCall then endLabel else name

namespace Listing

/-- Code defines the given routines and generated labels, and instructions name the latter, the labels
that are pending, and where the given calls go. The generated labels are different, and have numbers
above one count of tags and up to another. -/
structure Linked (pending calls routines generated : List String) (low high : Nat) (code : Listing) :
    Prop where
  ordered : low ≤ high
  labels : code.labels.Perm (routines ++ generated)
  drawn : ∀ label ∈ generated,
    Tag.isGenerated label = true ∧ low < Tag.number label ∧ Tag.number label ≤ high
  distinct : generated.Nodup
  called : ∀ name ∈ calls, callTarget name ∈ code.targets
  closed : ∀ target ∈ code.targets,
    target ∈ generated ∨ target ∈ pending ∨ ∃ name ∈ calls, callTarget name = target

namespace Linked

variable {pending calls more routines others generated further : List String} {low middle high : Nat}
  {code first second : Listing}

/-- Linked pieces of code with tags one behind the other are linked together. -/
theorem append (before : Linked pending calls routines generated low middle first)
    (behind : Linked pending more others further middle high second) :
    Linked pending (calls ++ more) (routines ++ others) (generated ++ further) low high
      (first ++ second) := by
  have lines : Listing.labels (first ++ second) = first.labels ++ second.labels := by
    simp [Listing.labels]
  have named : targets (first ++ second) = targets first ++ targets second := by
    simp [targets, instructions]
  have := before.ordered
  have := behind.ordered
  refine ⟨by omega, ?_, ?_, ?_, ?_, ?_⟩
  · rw [lines]
    refine (before.labels.append behind.labels).trans ?_
    simp only [List.perm_iff_count, List.count_append]
    omega
  · intro label member
    obtain member | member := List.mem_append.mp member
    · have := before.drawn label member
      exact ⟨this.1, by omega⟩
    · have := behind.drawn label member
      exact ⟨this.1, by omega⟩
  · refine List.nodup_append.mpr ⟨before.distinct, behind.distinct, ?_⟩
    rintro label member _ otherMember rfl
    have := before.drawn label member
    have := behind.drawn label otherMember
    omega
  · intro name member
    rw [named, List.mem_append]
    exact (List.mem_append.mp member).imp (before.called name) (behind.called name)
  · intro target member
    rw [named] at member
    obtain member | member := List.mem_append.mp member
    · obtain inside | pends | ⟨name, isCalled, goes⟩ := before.closed target member
      · exact .inl (List.mem_append_left _ inside)
      · exact .inr (.inl pends)
      · exact .inr (.inr ⟨name, List.mem_append_left _ isCalled, goes⟩)
    · obtain inside | pends | ⟨name, isCalled, goes⟩ := behind.closed target member
      · exact .inl (List.mem_append_right _ inside)
      · exact .inr (.inl pends)
      · exact .inr (.inr ⟨name, List.mem_append_right _ isCalled, goes⟩)

theorem nil (pending : List String) {low high : Nat} (ordered : low ≤ high) :
    Linked pending [] [] [] low high [] :=
  ⟨ordered, .nil, nofun, .nil, nofun, nofun⟩

/-- An instruction that names pending labels only. -/
theorem of_pending {line : Line} (body : line.label? = none)
    (named : ∀ target ∈ targets [line], target ∈ pending) (tags : Nat) :
    Linked pending [] [] [] tags tags [line] := by
  refine ⟨Nat.le_refl _, ?_, nofun, .nil, nofun, fun target member => .inr (.inl (named target member))⟩
  simp [Listing.labels, body]

/-- A label line stands for a routine until it is known to be generated. -/
theorem label (pending : List String) (name : String) (tags : Nat) :
    Linked pending [] [name] [] tags tags [.label name] :=
  ⟨Nat.le_refl _, .refl _, nofun, .nil, nofun, nofun⟩

/-- An instruction that goes where a call goes. -/
theorem call {line : Line} {name : String} (body : line.label? = none)
    (goes : targets [line] = [callTarget name]) (tags : Nat) :
    Linked pending [name] [] [] tags tags [line] := by
  refine ⟨Nat.le_refl _, ?_, nofun, .nil, ?_, ?_⟩
  · simp [Listing.labels, body]
  · simp [goes]
  · simp [goes]

/-- Pending labels that look generated and have a new number are generated labels of the code. -/
theorem settle {labels : List String} {number : Nat}
    (linked : Linked (labels ++ pending) calls routines generated number high code)
    (defined : routines.Perm (labels ++ others)) (distinct : labels.Nodup)
    (drawn : ∀ label ∈ labels, Tag.isGenerated label = true ∧ Tag.number label = number)
    (new : low < number) : Linked pending calls others (labels ++ generated) low high code := by
  have := linked.ordered
  refine ⟨by omega, ?_, ?_, ?_, linked.called, ?_⟩
  · refine linked.labels.trans ((defined.append_right generated).trans ?_)
    simp only [List.perm_iff_count, List.count_append]
    omega
  · intro label member
    obtain member | member := List.mem_append.mp member
    · have := drawn label member
      exact ⟨this.1, by omega⟩
    · have := linked.drawn label member
      exact ⟨this.1, by omega⟩
  · refine List.nodup_append.mpr ⟨distinct, linked.distinct, ?_⟩
    rintro label member _ otherMember rfl
    have := drawn label member
    have := linked.drawn label otherMember
    omega
  · intro target member
    rw [List.mem_append]
    obtain inside | pends | isCalled := linked.closed target member
    · exact .inl (.inr inside)
    · obtain settled | pends := List.mem_append.mp pends
      · exact .inl (.inl settled)
      · exact .inr (.inl pends)
    · exact .inr (.inr isCalled)

end Linked

end Listing

/-- Whenever steps succeed, they have emitted code with the given calls and routines, and the calls
are of routines that are known. -/
def Gen.Links {α : Type} (known pending calls routines : List String) (steps : Gen α) : Prop :=
  ∀ ⦃state value final⦄, steps state = .ok value final → ∃ code generated,
    final.listing = state.listing ++ code ∧
      code.Linked pending calls routines generated state.context.tags final.context.tags ∧
      ∀ name ∈ calls, name = exitCall ∨ name ∈ known

namespace Gen

variable {α β : Type} {known pending calls more routines others : List String}

/-- Steps that emit nothing and draw no tag. -/
theorem links_of_quiet {steps : Gen α} (quiet : ∀ state value final, steps state = .ok value final →
    final.listing = state.listing ∧ final.context.tags = state.context.tags) :
    Links known pending [] [] steps := by
  intro state value final ran
  obtain ⟨listing, tags⟩ := quiet state value final ran
  exact ⟨[], [], by simp [listing], .nil pending (Nat.le_of_eq tags.symm), nofun⟩

theorem links_pure (value : α) : Links known pending [] [] (pure value : Gen α) := by
  apply links_of_quiet
  rintro state _ final ⟨⟩
  exact ⟨rfl, rfl⟩

theorem links_throw (error : CompileError) :
    Links known pending calls routines (throw error : Gen α) :=
  fun _ _ _ impossible => nomatch impossible

theorem links_get : Links known pending [] [] (get : Gen Emission) := by
  apply links_of_quiet
  rintro state _ final ⟨⟩
  exact ⟨rfl, rfl⟩

theorem links_record {event : Event} (silent : event.line? = none) :
    Links known pending [] [] (record event) := by
  apply links_of_quiet
  intro state _ final ran
  rw [record_apply] at ran
  cases ran
  exact ⟨by simp [Emission.listing_noted, silent], rfl⟩

/-- A line that is emitted is all of the code. -/
theorem links_line {line : Line}
    (linked : ∀ tags, Listing.Linked pending calls routines [] tags tags [line])
    (callable : ∀ name ∈ calls, name = exitCall ∨ name ∈ known) :
    Links known pending calls routines (emit line) := by
  intro state _ final ran
  rw [emit_apply] at ran
  cases ran
  exact ⟨[line], [], by simp [Emission.listing_noted, Event.line?], linked _, callable⟩

theorem links_emit {line : Line} (body : line.label? = none)
    (named : ∀ target ∈ Listing.targets [line], target ∈ pending) :
    Links known pending [] [] (emit line) :=
  links_line (.of_pending body named) nofun

theorem links_plain {line : Line} (body : line.label? = none) (unnamed : Listing.targets [line] = []) :
    Links known pending [] [] (emit line) :=
  links_emit body (by simp [unnamed])

theorem links_jump {name : String} (pends : name ∈ pending) :
    Links known pending [] [] (emit (.jump name)) :=
  links_emit rfl fun _ member => List.mem_singleton.mp member ▸ pends

theorem links_label (name : String) : Links known pending [] [name] (emit (.label name)) :=
  links_line (.label pending name) nofun

/-- The calls and routines of two steps are those of the first and then those of the second. -/
theorem links_bind {first : Gen α} {next : α → Gen β} (linksFirst : Links known pending calls routines first)
    (linksNext : ∀ value, Links known pending more others (next value)) :
    Links known pending (calls ++ more) (routines ++ others) (first >>= next) := by
  intro state value final ran
  obtain ⟨result, middle, firstRan, nextRan⟩ := bind_eq_ok_iff.mp ran
  obtain ⟨code, generated, listing, linked, callable⟩ := linksFirst firstRan
  obtain ⟨rest, further, restListing, restLinked, restCallable⟩ := linksNext result nextRan
  refine ⟨code ++ rest, generated ++ further, ?_, linked.append restLinked, ?_⟩
  · rw [restListing, listing, List.append_assoc]
  · intro name member
    exact (List.mem_append.mp member).elim (callable name) (restCallable name)

/-- A sequence whose second part has no calls. -/
theorem links_then {first : Gen α} {next : α → Gen β}
    (linksFirst : Links known pending calls routines first)
    (linksNext : ∀ value, Links known pending [] others (next value)) :
    Links known pending calls (routines ++ others) (first >>= next) := by
  have both := links_bind linksFirst linksNext
  rwa [List.append_nil] at both

theorem links_withScratch {position : Position} {body : Word → Gen Unit}
    (linksBody : ∀ slot, Links known pending calls routines (body slot)) :
    Links known pending calls routines (withScratch position body) := by
  intro state _ final ran
  obtain ⟨slot, inner, _, bodyRan, rfl⟩ := withScratch_eq_ok_iff.mp ran
  obtain ⟨code, generated, listing, linked, callable⟩ := linksBody slot bodyRan
  rw [Emission.listing_holding] at listing
  exact ⟨code, generated, by rw [Emission.listing_dropping, listing], linked, callable⟩

theorem links_inScope {scope : ScopeId} {position : Position} {body : ScopeId → Gen Unit}
    (linksBody : ∀ inner, Links known pending calls routines (body inner)) :
    Links known pending calls routines (inScope scope position body) := by
  intro state _ final ran
  obtain ⟨inner, slots, middle, behind, _, bodyRan, _, rfl⟩ := inScope_eq_ok_iff.mp ran
  obtain ⟨code, generated, listing, linked, callable⟩ := linksBody inner bodyRan
  refine ⟨code, generated, ?_, linked, callable⟩
  simpa [Emission.listing_noted, Event.line?] using listing

theorem links_addressOf (name : String) (scope : ScopeId) (position : Position) :
    Links known pending [] [] (addressOf name scope position) := by
  apply links_of_quiet
  intro state address final ran
  obtain ⟨_, _, rfl⟩ | ⟨_, _, slots, _, _, rfl | rfl⟩ := addressOf_eq_ok ran
  · exact ⟨rfl, rfl⟩
  · exact ⟨rfl, rfl⟩
  · exact ⟨by simp [Emission.listing_noted, Event.line?], rfl⟩

/-- Code with labels of a tag that is drawn for it. -/
theorem links_tagged {stem : String} {marks : List Mark} {body : String → Gen α}
    {defined : String → List String} (fits : ∀ mark ∈ marks, stem ∈ mark.stems) (distinct : marks.Nodup)
    (linksBody : ∀ tag, Links known (marks.map (·.label tag) ++ pending) calls (defined tag) (body tag))
    (whole : ∀ tag, (defined tag).Perm (marks.map (·.label tag) ++ routines)) :
    Links known pending calls routines (nextTag stem >>= body) := by
  intro state value final ran
  obtain ⟨_, _, drawn, bodyRan⟩ := bind_eq_ok_iff.mp ran
  rw [nextTag_apply] at drawn
  cases drawn
  obtain ⟨code, generated, listing, linked, callable⟩ := linksBody _ bodyRan
  refine ⟨code, _, listing, linked.settle (whole _) (List.Nodup.map (Mark.label_injective _) distinct) ?_
    (Nat.lt_succ_self _), callable⟩
  intro label member
  obtain ⟨mark, isMark, rfl⟩ := List.mem_map.mp member
  exact Mark.labels_of_mem_stems (fits mark isMark) _

end Gen

namespace Plan

def calls : Plan → List String
  | call name _ => [name]
  | both first second => first.calls ++ second.calls
  | keeping _ body | inside _ body | tagged _ body => body.calls
  | _ => []

def routines : Plan → List String
  | entry name _ => [name]
  | both first second => first.routines ++ second.routines
  | keeping _ body | inside _ body | tagged _ body => body.routines
  | _ => []

/-- The places that labels of the tag around a plan mark. -/
def marks : Plan → List Mark
  | label mark => [mark]
  | both first second => first.marks ++ second.marks
  | keeping _ body | inside _ body => body.marks
  | _ => []

/-- The label lines of a plan, apart from those of tags that it draws. -/
def defined (tag : String) : Plan → List String
  | label mark => [mark.label tag]
  | entry name _ => [name]
  | both first second => first.defined tag ++ second.defined tag
  | keeping _ body | inside _ body => body.defined tag
  | tagged _ body => body.routines
  | _ => []

/-- Whether a plan goes to the given places of the tag around it only, and the labels of every tag that it draws
are different ones of the tag's stem and all that the plan goes to there. -/
def isLinked : List Mark → Plan → Bool
  | around, jump mark => around.contains mark
  | around, both first second => first.isLinked around && second.isLinked around
  | around, keeping _ body | around, inside _ body => body.isLinked around
  | _, tagged stem body =>
    decide body.marks.Nodup && body.marks.all (·.stems.contains stem) && body.isLinked body.marks
  | _, _ => true

/-- The labels that a plan defines are those of its marks and of its routines. -/
theorem defined_perm (plan : Plan) (tag : String) :
    (plan.defined tag).Perm (plan.marks.map (·.label tag) ++ plan.routines) := by
  induction plan with
  | both first second firstPerm secondPerm =>
    refine (firstPerm.append secondPerm).trans ?_
    simp only [marks, routines, List.map_append, List.perm_iff_count, List.count_append]
    omega
  | keeping position body perm => exact perm
  | inside position body perm => exact perm
  | _ => exact .refl _

/-- A plan without labels of the tag around it has the label lines of its routines. -/
theorem defined_of_marks {plan : Plan} (unmarked : plan.marks = []) (tag : String) :
    plan.defined tag = plan.routines := by
  induction plan with
  | label => cases unmarked
  | both first second firstDefined secondDefined =>
    obtain ⟨firstUnmarked, secondUnmarked⟩ := List.append_eq_nil_iff.mp unmarked
    rw [defined, routines, firstDefined firstUnmarked, secondDefined secondUnmarked]
  | keeping position body defined => exact defined unmarked
  | inside position body defined => exact defined unmarked
  | _ => rfl

@[simp] theorem calls_append (first second : Plan) : (first ++ second).calls = first.calls ++ second.calls := rfl

@[simp] theorem routines_append (first second : Plan) :
    (first ++ second).routines = first.routines ++ second.routines := rfl

@[simp] theorem marks_append (first second : Plan) : (first ++ second).marks = first.marks ++ second.marks := rfl

@[simp] theorem isLinked_append (around : List Mark) (first second : Plan) :
    (first ++ second).isLinked around = (first.isLinked around && second.isLinked around) := rfl

@[simp] theorem calls_valueOnly (want : Want) (form : ExprForm) (position : Position) :
    (valueOnly want form position).calls = [] := by
  cases want <;> rfl

@[simp] theorem marks_valueOnly (want : Want) (form : ExprForm) (position : Position) :
    (valueOnly want form position).marks = [] := by
  cases want <;> rfl

@[simp] theorem isLinked_valueOnly (around : List Mark) (want : Want) (form : ExprForm) (position : Position) :
    (valueOnly want form position).isLinked around = true := by
  cases want <;> rfl

@[simp] theorem calls_chain (several : Bool) (sides : Plan) : (chain several sides).calls = sides.calls := by
  cases several <;> simp [chain, calls]

/-- A routine's name stands in no plan of a value. -/
theorem routines_of_isValue {plan : Plan} {depth : Nat} (isValue : plan.isValue depth = true) :
    plan.routines = [] := by
  induction plan generalizing depth with
  | both first second firstNone secondNone =>
    obtain ⟨firstValue, secondValue⟩ := Bool.and_eq_true_iff.mp isValue
    rw [routines, firstNone firstValue, secondNone secondValue, List.nil_append]
  | keeping position body none => exact none isValue
  | tagged stem body none => exact none isValue
  | entry | inside => cases isValue
  | _ => rfl

end Plan

section Trees

open Plan

mutual

/-- The plan of an expression goes nowhere outside, and nothing outside goes into it. -/
theorem Source.Expr.linked_plan (want : Want) (expr : Expr) :
    (expr.plan want).marks = [] ∧ ∀ around, (expr.plan want).isLinked around = true := by
  cases expr with
  | number | call => cases want <;> exact ⟨rfl, fun _ => rfl⟩
  | name => exact ⟨rfl, fun _ => rfl⟩
  | index position base index =>
    cases want <;> simp [Expr.plan, Plan.marks, Plan.isLinked, Expr.linked_plan]
  | binary position op left right =>
    rw [Expr.plan]
    cases opcode? op <;> simp [Plan.marks, Plan.isLinked, Expr.linked_plan]
  | unary position op operand =>
    cases op <;> simp [Expr.plan, Plan.marks, Plan.isLinked, Expr.linked_plan]
  | logical position op operands =>
    simp [Expr.plan, Plan.marks, Plan.isLinked, linked_operandsPlan, Mark.stems]
  | compare position first stages =>
    simp only [Expr.plan, chain, marks_append, marks_valueOnly, isLinked_append, isLinked_valueOnly,
      List.nil_append, Bool.true_and]
    split
    · simp [Plan.marks, Plan.isLinked, Expr.linked_plan, linked_stagesPlan, Mark.stems]
    · rename_i single
      simp [Plan.marks, Plan.isLinked, Expr.linked_plan, linked_stagesPlan, single]

theorem Source.linked_operandsPlan (op : LogicalOp) (operands : List Expr) :
    (operandsPlan op operands).marks = [] ∧
      ∀ around, .skip ∈ around → (operandsPlan op operands).isLinked around = true := by
  match operands with
  | [] => exact ⟨rfl, fun _ _ => rfl⟩
  | [operand] => simp [operandsPlan, Expr.linked_plan]
  | operand :: next :: operands =>
    have rest := linked_operandsPlan op (next :: operands)
    simp +contextual [operandsPlan, Plan.marks, Plan.isLinked, Expr.linked_plan, rest]

theorem Source.linked_stagesPlan (several : Bool) (stages : List (Relation × Expr)) :
    (stagesPlan several stages).marks = [] ∧ ∀ around, (several = true → .done ∈ around) →
      (stagesPlan several stages).isLinked around = true := by
  match stages with
  | [] => exact ⟨rfl, fun _ _ => rfl⟩
  | (relation, operand) :: stages =>
    have next : (nextStage (several && !stages.isEmpty)).marks = [] ∧ ∀ around,
        (several = true → .done ∈ around) → (nextStage (several && !stages.isEmpty)).isLinked around = true := by
      cases several <;> cases stages <;> simp [nextStage, Plan.marks, Plan.isLinked]
    have lines : (lines (relationCode relation 1 0)).marks = [] ∧
        ∀ around, (lines (relationCode relation 1 0)).isLinked around = true := by
      cases relation <;> exact ⟨rfl, fun _ => rfl⟩
    have rest := linked_stagesPlan several stages
    simp +contextual [stagesPlan, Plan.marks, Plan.isLinked, Expr.linked_plan, lines, next, rest]

end

mutual

theorem Source.Expr.calls_plan (want : Want) (expr : Expr) : (expr.plan want).calls = expr.calls := by
  cases expr with
  | number | call => cases want <;> rfl
  | name => rfl
  | index position base index =>
    cases want <;> simp [Expr.plan, Plan.calls, Expr.calls, Expr.calls_plan]
  | binary position op left right =>
    rw [Expr.plan]
    cases opcode? op <;> simp [Plan.calls, Expr.calls, Expr.calls_plan]
  | unary position op operand =>
    cases op <;> simp [Expr.plan, Plan.calls, Expr.calls, Expr.calls_plan]
  | logical position op operands =>
    simp [Expr.plan, Plan.calls, Expr.calls, calls_operandsPlan]
  | compare position first stages =>
    simp [Expr.plan, Plan.calls, Expr.calls, Expr.calls_plan, calls_stagesPlan]

theorem Source.calls_operandsPlan (op : LogicalOp) (operands : List Expr) :
    (operandsPlan op operands).calls = callsOfAll operands := by
  match operands with
  | [] => rfl
  | [operand] => simp [operandsPlan, callsOfAll, Expr.calls_plan]
  | operand :: next :: operands =>
    have rest := calls_operandsPlan op (next :: operands)
    simp only [operandsPlan, calls_append, Expr.calls_plan, rest]
    simp [callsOfAll, Plan.calls]

theorem Source.calls_stagesPlan (several : Bool) (stages : List (Relation × Expr)) :
    (stagesPlan several stages).calls = callsOfStages stages := by
  match stages with
  | [] => rfl
  | (relation, operand) :: stages =>
    have plain : (lines (relationCode relation 1 0) ++ nextStage (several && !stages.isEmpty)).calls = [] := by
      cases relation <;> cases several <;> cases stages <;> rfl
    rw [calls_append, List.append_eq_nil_iff] at plain
    simp [stagesPlan, callsOfStages, Plan.calls, Expr.calls_plan, calls_stagesPlan, plain]

end

section Targets

variable (targets : List Expr)

theorem Source.linked_targetsPlan :
    (targetsPlan targets).marks = [] ∧ ∀ around, (targetsPlan targets).isLinked around = true := by
  induction targets with
  | nil => exact ⟨rfl, fun _ => rfl⟩
  | cons target targets ih => simp [targetsPlan, Plan.marks, Plan.isLinked, Expr.linked_plan, ih]

theorem Source.calls_targetsPlan : (targetsPlan targets).calls = callsOfAll targets := by
  induction targets with
  | nil => rfl
  | cons target targets ih => simp [targetsPlan, callsOfAll, Plan.calls, Expr.calls_plan, ih]

end Targets

theorem Source.Expr.routines_plan (want : Want) (expr : Expr) : (expr.plan want).routines = [] :=
  routines_of_isValue (expr.isValue_plan 0 want)

mutual

/-- The plan of a statement goes nowhere outside, and nothing outside goes into it. -/
theorem Source.Stmt.linked_plan (statement : Stmt) :
    statement.plan.marks = [] ∧ ∀ around, statement.plan.isLinked around = true := by
  cases statement with
  | routine position name body =>
    rw [Stmt.plan]
    split <;> simp [Plan.marks, Plan.isLinked, linked_blockPlan]
  | ret position value => cases value <;> simp [Stmt.plan, Plan.marks, Plan.isLinked, Expr.linked_plan]
  | branch position test body alternative =>
    simp [Stmt.plan, Plan.marks, Plan.isLinked, Plan.unlessHolds, Mark.stems, Expr.linked_plan, linked_blockPlan]
  | whileLoop position test body =>
    simp [Stmt.plan, loop, Plan.marks, Plan.isLinked, Plan.unlessHolds, Mark.stems, Expr.linked_plan,
      linked_blockPlan]
  | forLoop position init test step body =>
    simp [Stmt.plan, loop, Plan.marks, Plan.isLinked, Plan.unlessHolds, Mark.stems, Expr.linked_plan,
      Stmt.linked_plan, linked_blockPlan]
  | assign position targets value =>
    simp [Stmt.plan, Plan.marks, Plan.isLinked, Expr.linked_plan, linked_targetsPlan]
  | evaluate position value => simp [Stmt.plan, Expr.linked_plan]

/-- The plan of a block places no mark of the tag around it, and its jumps lead to marks within it. -/
theorem Source.linked_blockPlan (statements : List Stmt) :
    (blockPlan statements).marks = [] ∧ ∀ around, (blockPlan statements).isLinked around = true := by
  cases statements with
  | nil => exact ⟨rfl, fun _ => rfl⟩
  | cons statement statements => simp [blockPlan, Stmt.linked_plan, linked_blockPlan]

end

mutual

theorem Source.Stmt.calls_plan (statement : Stmt) : statement.plan.calls = statement.calls := by
  cases statement with
  | routine position name body =>
    rw [Stmt.plan]
    split <;> simp [Plan.calls, Stmt.calls, calls_blockPlan]
  | ret position value => cases value <;> simp [Stmt.plan, Plan.calls, Stmt.calls, Expr.calls_plan]
  | branch position test body alternative =>
    simp [Stmt.plan, Plan.calls, Plan.unlessHolds, Stmt.calls, Expr.calls_plan, calls_blockPlan]
  | whileLoop position test body =>
    simp [Stmt.plan, loop, Plan.calls, Plan.unlessHolds, Stmt.calls, Expr.calls_plan, calls_blockPlan]
  | forLoop position init test step body =>
    simp [Stmt.plan, loop, Plan.calls, Plan.unlessHolds, Stmt.calls, Expr.calls_plan, Stmt.calls_plan,
      calls_blockPlan]
  | assign position targets value =>
    simp [Stmt.plan, Plan.calls, Stmt.calls, Expr.calls_plan, calls_targetsPlan]
  | evaluate position value => simp [Stmt.plan, Stmt.calls, Expr.calls_plan]

theorem Source.calls_blockPlan (statements : List Stmt) : (blockPlan statements).calls = callsIn statements := by
  cases statements with
  | nil => rfl
  | cons statement statements => simp [blockPlan, callsIn, Stmt.calls_plan, calls_blockPlan]

end

mutual

theorem Source.Stmt.routines_plan (statement : Stmt) : statement.plan.routines = statement.routines := by
  cases statement with
  | routine position name body =>
    rw [Stmt.plan]
    split <;> simp [Plan.routines, Stmt.routines, routines_blockPlan]
  | ret position value => cases value <;> simp [Stmt.plan, Plan.routines, Stmt.routines, Expr.routines_plan]
  | branch position test body alternative =>
    simp [Stmt.plan, Plan.routines, Plan.unlessHolds, Stmt.routines, Expr.routines_plan, routines_blockPlan]
  | whileLoop position test body =>
    simp [Stmt.plan, loop, Plan.routines, Plan.unlessHolds, Stmt.routines, Expr.routines_plan,
      routines_blockPlan]
  | forLoop position init test step body =>
    simp [Stmt.plan, loop, Plan.routines, Plan.unlessHolds, Stmt.routines, Expr.routines_plan,
      Stmt.routines_plan, routines_blockPlan]
  | assign position targets value =>
    simp [Stmt.plan, Plan.routines, Stmt.routines, Expr.routines_plan,
      routines_of_isValue (isValue_targetsPlan 0 targets)]
  | evaluate position value => simp [Stmt.plan, Stmt.routines, Expr.routines_plan]

theorem Source.routines_blockPlan (statements : List Stmt) :
    (blockPlan statements).routines = routinesIn statements := by
  cases statements with
  | nil => rfl
  | cons statement statements => simp [blockPlan, routinesIn, Stmt.routines_plan, routines_blockPlan]

end

end Trees

section Code

variable {known pending : List String}

private theorem callCode_links (name : String) (position : Position) :
    Links known pending [name] [] (callCode known name position) := by
  rw [callCode]
  split
  case isTrue isExit =>
    have target : callTarget name = endLabel := if_pos isExit
    exact links_line (.call rfl (target ▸ rfl)) (by simp [isExit])
  case isFalse notExit =>
    split
    case isTrue isKnown =>
      have target : callTarget name = name := if_neg notExit
      have jumps : Links known pending [name] [] (emit (.jsr name)) :=
        links_line (.call rfl (by rw [target]; rfl)) (by simpa [notExit] using isKnown)
      apply links_bind links_get
      intro state
      dsimp only
      split
      · apply links_bind (links_record rfl)
        intro _
        exact jumps
      · exact jumps
    case isFalse => exact links_throw _

theorem Operand.label?_of_isPlain {operand : Operand} {depth : Nat} (isPlain : operand.isPlain depth = true)
    (address : Word → Word) : (operand.readdressed address).label? = none := by
  cases operand with
  | label => cases isPlain
  | _ => rfl

/-- A plain line goes nowhere. -/
theorem Line.targets_of_isPlain {line : Line} {depth : Nat} (isPlain : line.isPlain depth = true)
    (address : Word → Word) : (line.readdressed address).label? = none ∧
      Listing.targets [line.readdressed address] = [] := by
  obtain ⟨op, b, a, rfl, plainB, plainA, _⟩ := Line.of_isPlain isPlain
  refine ⟨rfl, ?_⟩
  simp [Listing.targets, Listing.instructions, Line.instruction?, Line.basic, Line.readdressed,
    Instruction.readdressed, Instruction.operands, Operand.label?_of_isPlain plainB,
    Operand.label?_of_isPlain plainA]

/-- A linked plan has its calls and its routines, if the places that it goes to are pending. -/
theorem Plan.links {slots : List Word} {plan : Plan} {around : List Mark} (scope : ScopeId) {tag : String}
    (isPlain : plan.isPlain slots.length = true) (isLinked : plan.isLinked around = true)
    (pends : ∀ mark ∈ around, mark.label tag ∈ pending) :
    Links known pending plan.calls (plan.defined tag) (plan.code known scope slots tag) := by
  induction plan generalizing slots around pending scope tag with
  | nothing => exact links_pure _
  | noAddress | unsupported => exact links_throw _
  | plain line =>
    obtain ⟨body, unnamed⟩ := Line.targets_of_isPlain isPlain (slotAt slots)
    exact links_plain body unnamed
  | jump mark => exact links_jump (pends mark (by simpa [Plan.isLinked] using isLinked))
  | label mark => exact links_label _
  | ret => exact links_plain rfl rfl
  | connective => exact links_record rfl
  | entry name position =>
    apply links_bind (links_record rfl)
    intro _
    exact links_label name
  | access want name position =>
    apply links_bind (links_addressOf name scope position)
    intro address
    cases want <;> exact links_plain rfl rfl
  | call name position => exact callCode_links name position
  | both first second firstLinks secondLinks =>
    obtain ⟨firstPlain, secondPlain⟩ := Bool.and_eq_true_iff.mp isPlain
    obtain ⟨firstLinked, secondLinked⟩ := Bool.and_eq_true_iff.mp isLinked
    apply links_bind (firstLinks scope firstPlain firstLinked pends)
    intro _
    exact secondLinks scope secondPlain secondLinked pends
  | keeping position body links =>
    apply links_withScratch
    intro slot
    exact links scope isPlain isLinked pends
  | inside position body links =>
    apply links_inScope
    intro inner
    exact links inner isPlain isLinked pends
  | tagged stem body links =>
    simp only [Plan.isLinked, Bool.and_eq_true, decide_eq_true_eq, List.all_eq_true] at isLinked
    obtain ⟨⟨distinct, fits⟩, isLinked⟩ := isLinked
    apply links_tagged (by simpa using fits) distinct
    · intro drawn
      apply links scope isPlain isLinked
      intro mark isMark
      exact List.mem_append_left _ (List.mem_map_of_mem isMark)
    · exact body.defined_perm

/-- The code of statements has the calls and the routines in them. -/
theorem blockCode_links (known pending : List String) (scope : ScopeId) (statements : List Stmt) :
    Links known pending (callsIn statements) (routinesIn statements) (blockCode known scope statements) := by
  obtain ⟨unmarked, isLinked⟩ := linked_blockPlan statements
  rw [← code_blockPlan known scope [] "", ← calls_blockPlan, ← routines_blockPlan,
    ← Plan.defined_of_marks unmarked ""]
  exact Plan.links scope (isPlain_blockPlan 0 statements) (isLinked []) (List.forall_mem_nil _)

end Code

/-- Registration emits nothing. It succeeds only if no name clashes, and then all names are known. -/
theorem registerRoutines_eq_ok {known names : List String} {definitions : List (String × Position)}
    {state final : Emission} (ran : registerRoutines known definitions state = .ok names final) :
    (final.listing = state.listing ∧ final.context.tags = state.context.tags) ∧
      (∀ name, name ∈ names ↔ name ∈ known ∨ name ∈ definitions.map Prod.fst) ∧
      ∀ name ∈ definitions.map Prod.fst, nameClash? name = none := by
  induction definitions generalizing known state with
  | nil =>
    cases ran
    simp
  | cons definition definitions ih =>
    obtain ⟨name, position⟩ := definition
    rw [registerRoutines] at ran
    cases clash : nameClash? name with
    | some clash' => simp [clash, bind_apply] at ran
    | none =>
      simp only [clash] at ran
      split at ran
      case isTrue isKnown =>
        rw [bind_apply, record_apply] at ran
        obtain ⟨quiet, members, vetted⟩ := ih ran
        refine ⟨by simpa [Emission.listing_noted, Event.line?] using quiet, fun other => ?_, ?_⟩
        · have isKnown : name ∈ known := by simpa using isKnown
          rw [members, List.map_cons, List.mem_cons]
          grind
        · simpa [clash] using vetted
      case isFalse =>
        obtain ⟨quiet, members, vetted⟩ := ih ran
        refine ⟨quiet, fun other => ?_, ?_⟩
        · rw [members, List.map_cons, List.mem_cons, List.mem_append, List.mem_singleton, or_assoc]
        · simpa [clash] using vetted

/-- The label of the halt loop, if one is appended to a program with the given routines. -/
def haltLabels (haltLoop : Bool) (routines : List String) : List String :=
  if haltLoop = true ∧ endLabel ∉ routines then [endLabel] else []

/-- The code of a program has the calls and the routines in it, and the label of the halt loop. The
calls are of routines that are registered, and none of these has a name that clashes. -/
theorem programCode_links {haltLoop : Bool} {program : Program} {state final : Emission}
    (ran : programCode haltLoop program state = .ok () final) :
    (∃ code generated, final.listing = state.listing ++ code ∧
      code.Linked (haltLabels haltLoop ((definitionsIn program).map Prod.fst)) (callsIn program)
        (routinesIn program ++ haltLabels haltLoop ((definitionsIn program).map Prod.fst)) generated
        state.context.tags final.context.tags) ∧
      (∀ name ∈ callsIn program, name = exitCall ∨ name ∈ (definitionsIn program).map Prod.fst) ∧
      ∀ name ∈ (definitionsIn program).map Prod.fst, nameClash? name = none := by
  rw [programCode] at ran
  obtain ⟨known, registered, registers, rest⟩ := bind_eq_ok_iff.mp ran
  obtain ⟨⟨listing, tags⟩, members, vetted⟩ := registerRoutines_eq_ok registers
  have members (name : String) : name ∈ known ↔ name ∈ (definitionsIn program).map Prod.fst := by
    simpa using members name
  let halt := haltLabels haltLoop ((definitionsIn program).map Prod.fst)
  have halts : Links known halt [] halt
      (if haltLoop && !known.contains endLabel then do
          record .haltAppended
          emit (.label endLabel)
          emit (.jump endLabel)
        else pure ()) := by
    by_cases appended : haltLoop = true ∧ endLabel ∉ (definitionsIn program).map Prod.fst
    · have condition : (haltLoop && !known.contains endLabel) = true := by
        simpa [members] using appended
      have isAppended : halt = [endLabel] := if_pos appended
      rw [isAppended, if_pos condition]
      apply links_bind (links_record rfl)
      intro _
      apply links_bind (links_label _)
      intro _
      exact links_jump (List.mem_cons_self ..)
    · have condition : ¬ (haltLoop && !known.contains endLabel) = true := by
        simpa [members] using appended
      have isEmpty : halt = [] := if_neg appended
      rw [isEmpty, if_neg condition]
      exact links_pure _
  have notes : Links known halt [] [] (record (.registered known)) := links_record rfl
  have whole := links_bind notes fun _ => links_then (blockCode_links known _ 0 program) fun _ => halts
  obtain ⟨code, generated, restListing, linked, callable⟩ := whole rest
  refine ⟨⟨code, generated, by rw [restListing, listing], tags ▸ linked⟩, fun name member => ?_, vetted⟩
  exact (callable name member).imp_right (members name).mp

end Dcpu
