import Dcpu.Proofs.Effects

/-! # One run follows another

Two sequences of steps are run from states that are alike. One follows the other if they succeed
together, with results that correspond and states that are alike again, and fail together, with errors
that correspond. Some errors of the first are excused: there the second may do as it likes.
-/

namespace Dcpu.Effects

variable {ε σ α β γ δ : Type}

/-- How the states and the errors of two runs are paired. -/
structure Pairing (ε σ : Type) where
  alike : σ → σ → Prop
  excused : ε → Prop
  blame : ε → ε

def Pairing.same : Pairing ε σ := ⟨Eq, fun _ => False, id⟩

/-- From states that are alike, the second of two steps does what the first does. The states behind failures
are not compared. -/
def Follows (pairing : Pairing ε σ) (paired : α → β → Prop) (step : EStateM ε σ α) (other : EStateM ε σ β) :
    Prop :=
  ∀ ⦃state state'⦄, pairing.alike state state' →
    match step state with
    | .ok value after => ∃ value' after', other state' = .ok value' after' ∧
        pairing.alike after after' ∧ paired value value'
    | .error error _ => pairing.excused error ∨ ∃ after', other state' = .error (pairing.blame error) after'

variable {pairing : Pairing ε σ} {paired : α → β → Prop} {next : γ → δ → Prop}

theorem follows_self (step : EStateM ε σ α) : Follows .same Eq step step := by
  rintro state _ rfl
  cases step state with
  | ok value after => exact ⟨value, after, rfl, rfl, rfl⟩
  | error error after => exact .inr ⟨after, rfl⟩

theorem follows_pure {value : α} {value' : β} (same : paired value value') :
    Follows pairing paired (pure value) (pure value') :=
  fun _ state' alike => ⟨value', state', rfl, alike, same⟩

theorem follows_throw (error : ε) :
    Follows pairing paired (throw error : EStateM ε σ α) (throw (pairing.blame error) : EStateM ε σ β) :=
  fun _ state' _ => .inr ⟨state', rfl⟩

theorem follows_modify {change change' : σ → σ}
    (kept : ∀ state state', pairing.alike state state' → pairing.alike (change state) (change' state')) :
    Follows pairing (fun _ _ => True) (modify change : EStateM ε σ PUnit) (modify change') :=
  fun state state' alike => ⟨⟨⟩, change' state', rfl, kept state state' alike, trivial⟩

theorem follows_get : Follows pairing pairing.alike (get : EStateM ε σ σ) get :=
  fun _ state' alike => ⟨state', state', rfl, alike, alike⟩

/-- Two programs that follow each other step by step follow each other as wholes. -/
theorem follows_bind {step : EStateM ε σ α} {other : EStateM ε σ β} {rest : α → EStateM ε σ γ}
    {rest' : β → EStateM ε σ δ} (first : Follows pairing paired step other)
    (behind : ∀ value value', paired value value' → Follows pairing next (rest value) (rest' value')) :
    Follows pairing next (step >>= rest) (other >>= rest') := by
  intro state state' alike
  have ran := first alike
  rw [bind_apply]
  cases stepped : step state with
  | ok value after =>
    rw [stepped] at ran
    obtain ⟨value', after', otherStepped, alikeAfter, same⟩ := ran
    have ranBehind := behind value value' same alikeAfter
    rw [bind_apply, otherStepped]
    exact ranBehind
  | error error after =>
    rw [stepped] at ran
    obtain excused | ⟨after', failed⟩ := ran
    · exact .inl excused
    · exact .inr ⟨after', by rw [bind_apply, failed]⟩

theorem follows_then {step : EStateM ε σ α} {other : EStateM ε σ β} {rest : EStateM ε σ γ}
    {rest' : EStateM ε σ δ} (first : Follows pairing paired step other)
    (behind : Follows pairing next rest rest') :
    Follows pairing next (step >>= fun _ => rest) (other >>= fun _ => rest') :=
  follows_bind first fun _ _ _ => behind

theorem Follows.imp {step : EStateM ε σ α} {other : EStateM ε σ β} {weaker : α → β → Prop}
    (follows : Follows pairing paired step other)
    (implies : ∀ value value', paired value value' → weaker value value') :
    Follows pairing weaker step other := by
  intro state state' alike
  have ran := follows alike
  cases stepped : step state with
  | ok value after =>
    rw [stepped] at ran
    obtain ⟨value', after', otherStepped, alikeAfter, same⟩ := ran
    exact ⟨value', after', otherStepped, alikeAfter, implies value value' same⟩
  | error error after =>
    rw [stepped] at ran
    exact ran

end Dcpu.Effects
