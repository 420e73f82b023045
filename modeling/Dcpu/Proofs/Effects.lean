import Mathlib.Tactic.Common

/-! # Steps applied to a state

The allocator, code generation and the machine are written as steps on a state that survives a
failure. Here a step is applied to a state: a sequence that succeeds is cut into the parts that
succeed one after the other.
-/

namespace Dcpu.Effects

variable {ε σ α β : Type}

theorem bind_apply (first : EStateM ε σ α) (next : α → EStateM ε σ β) (state : σ) :
    (first >>= next) state = match first state with
      | .ok value state => next value state
      | .error error state => .error error state := by
  change EStateM.bind first next state = _
  unfold EStateM.bind
  cases first state <;> rfl

theorem map_apply (change : α → β) (step : EStateM ε σ α) (state : σ) :
    (change <$> step) state = match step state with
      | .ok value state => .ok (change value) state
      | .error error state => .error error state := by
  change EStateM.map change step state = _
  unfold EStateM.map
  cases step state <;> rfl

@[simp] theorem pure_apply (value : α) (state : σ) :
    (pure value : EStateM ε σ α) state = .ok value state := rfl

@[simp] theorem get_apply (state : σ) : (get : EStateM ε σ σ) state = .ok state state := rfl

@[simp] theorem set_apply (state other : σ) :
    (set other : EStateM ε σ PUnit) state = .ok ⟨⟩ other := rfl

@[simp] theorem modify_apply (change : σ → σ) (state : σ) :
    (modify change : EStateM ε σ PUnit) state = .ok ⟨⟩ (change state) := rfl

@[simp] theorem throw_apply (error : ε) (state : σ) :
    (throw error : EStateM ε σ α) state = .error error state := rfl

/-- A sequence succeeds exactly when its parts succeed one after the other. -/
theorem bind_eq_ok_iff {first : EStateM ε σ α} {next : α → EStateM ε σ β} {state final : σ}
    {result : β} : (first >>= next) state = .ok result final ↔
      ∃ value middle, first state = .ok value middle ∧ next value middle = .ok result final := by
  rw [bind_apply]
  cases first state with
  | ok value middle =>
    constructor
    · intro rest
      exact ⟨value, middle, rfl, rest⟩
    · rintro ⟨_, _, same, rest⟩
      cases same
      exact rest
  | error error middle =>
    constructor
    · intro impossible
      cases impossible
    · rintro ⟨_, _, impossible, _⟩
      cases impossible

/-- A sequence fails when its first part fails, or its second part behind the first. -/
theorem bind_eq_error_iff {first : EStateM ε σ α} {next : α → EStateM ε σ β} {state final : σ} {error : ε} :
    (first >>= next) state = .error error final ↔ first state = .error error final ∨
      ∃ value middle, first state = .ok value middle ∧ next value middle = .error error final := by
  rw [bind_apply]
  cases first state with
  | ok value middle =>
    constructor
    · intro rest
      exact .inr ⟨value, middle, rfl, rest⟩
    · rintro (impossible | ⟨_, _, same, rest⟩)
      · cases impossible
      · cases same
        exact rest
  | error error middle =>
    constructor
    · rintro ⟨⟩
      exact .inl rfl
    · rintro (same | ⟨_, _, impossible, _⟩)
      · cases same
        rfl
      · cases impossible

theorem run'_eq_some_iff {step : EStateM ε σ α} {state : σ} {value : α} :
    step.run' state = some value ↔ ∃ after, step state = .ok value after := by
  delta EStateM.run' EStateM.run
  cases step state <;> simp

theorem run'_eq_none_iff {step : EStateM ε σ α} {state : σ} :
    step.run' state = none ↔ ∃ error after, step state = .error error after := by
  delta EStateM.run' EStateM.run
  cases step state <;> simp

end Dcpu.Effects
