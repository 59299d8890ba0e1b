import Mathlib
/-!
# Loops that end

A Go `for` loop with a `break` is a step function on the loop's variables:
`none` is the `break`, `some s'` the next iteration. `loop` runs it with a
bound on the iterations. What every iteration keeps, the loop keeps.
-/

namespace InferenceGateway.Lib

variable {σ : Type*}

/-- Iterate `step` until it breaks, at most `fuel` times. -/
def loop (step : σ → Option σ) : Nat → σ → σ
  | 0, s => s
  | fuel + 1, s =>
    match step s with
    | none => s
    | some s' => loop step fuel s'

variable {step : σ → Option σ} {s : σ}

theorem loop_break (h : step s = none) (fuel : Nat) : loop step fuel s = s := by
  cases fuel <;> simp [loop, h]

theorem loop_next {s' : σ} (h : step s = some s') (fuel : Nat) : loop step (fuel + 1) s = loop step fuel s' := by
  simp [loop, h]

/-- What every iteration keeps, the loop keeps, whatever its bound. -/
theorem loop_inv (I : σ → Prop) (hs : ∀ s s', I s → step s = some s' → I s') (fuel : Nat) :
    ∀ s, I s → I (loop step fuel s) := by
  induction fuel with
  | zero => intro s h; exact h
  | succ fuel ih =>
    intro s h
    cases hst : step s with
    | none => rw [loop_break hst]; exact h
    | some s' => rw [loop_next hst]; exact ih s' (hs s s' h hst)

/-- Every iteration the loop makes, from `s` to `s'`, has `Q s s'`. -/
def loopAll (step : σ → Option σ) (Q : σ → σ → Bool) : Nat → σ → Bool
  | 0, _ => true
  | fuel + 1, s =>
    match step s with
    | none => true
    | some s' => Q s s' && loopAll step Q fuel s'

theorem loopAll_break {Q : σ → σ → Bool} (h : step s = none) (fuel : Nat) : loopAll step Q fuel s = true := by
  cases fuel <;> simp [loopAll, h]

theorem loopAll_next {Q : σ → σ → Bool} {s' : σ} (h : step s = some s') (fuel : Nat) :
    loopAll step Q (fuel + 1) s = (Q s s' && loopAll step Q fuel s') := by
  simp [loopAll, h]

end InferenceGateway.Lib
