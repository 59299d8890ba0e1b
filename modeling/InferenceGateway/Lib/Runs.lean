import Mathlib
/-!
# Runs

A system is a step function that takes an operation and may fail. A run under a
condition `C` is a sequence of steps that all met it, each in the state the one
before it left. What holds at the start and is kept by every such step holds in
every state a run reaches.
-/

namespace InferenceGateway.Lib

variable {σ ι ε : Type*}

/-- The states that runs from `s` whose steps all meet `C` reach. -/
def Runs (step : σ → ι → Except ε σ) (C : σ → ι → Prop) : σ → σ → Prop :=
  Relation.ReflTransGen fun s s' => ∃ op, C s op ∧ step s op = .ok s'

theorem Runs.invariant {step : σ → ι → Except ε σ} {C : σ → ι → Prop} (I : σ → Prop)
    (hstep : ∀ s op s', I s → C s op → step s op = .ok s' → I s') {s s' : σ} (hs : I s) (h : Runs step C s s') : I s' := by
  induction h with
  | refl => exact hs
  | tail _ hlast ih =>
    obtain ⟨op, hc, hok⟩ := hlast
    exact hstep _ op _ ih hc hok

/-- A run given by its operations, which stops where the condition fails. -/
def runOps (step : σ → ι → Except ε σ) (C : σ → ι → Prop) [∀ s op, Decidable (C s op)] : List ι → σ → Option σ
  | [], s => some s
  | op :: ops, s => if C s op then (step s op).toOption.bind (runOps step C ops) else none

theorem runs_of_runOps {step : σ → ι → Except ε σ} {C : σ → ι → Prop} [∀ s op, Decidable (C s op)] (ops : List ι) :
    ∀ {s s' : σ}, runOps step C ops s = some s' → Runs step C s s' := by
  induction ops with
  | nil =>
    intro s s' h
    cases h
    exact .refl
  | cons op ops ih =>
    intro s s' h
    rw [runOps] at h
    split at h
    · rename_i hC
      obtain ⟨s₁, h1, h2⟩ := Option.bind_eq_some_iff.1 h
      refine .head ⟨op, hC, ?_⟩ (ih h2)
      cases hs : step s op with
      | error e => rw [hs] at h1; cases h1
      | ok s₂ => rw [hs] at h1; cases h1; rfl
    · cases h

section
variable {step : σ → ι → Except ε σ} {C : σ → ι → Prop} [∀ s op, Decidable (C s op)] (ops : List ι) (p : σ → Prop) [DecidablePred p]

/-- A run on fixed operations, with a check of the state it ends in. -/
theorem exists_runs {s₀ : σ} {q : σ → Prop} (h : (runOps step C ops s₀).any (fun s => p s) = true)
    (hq : ∀ s, Runs step C s₀ s → p s → q s) : ∃ s, Runs step C s₀ s ∧ q s := by
  obtain ⟨s, hs, hp⟩ := (Option.any_eq_true _ _).1 h
  have hrun := runs_of_runOps ops hs
  exact ⟨s, hrun, hq s hrun (of_decide_eq_true hp)⟩

/-- The same from what a start that may fail gives. -/
theorem exists_run {ρ ε' : Type*} {start : Except ε' ρ} {f : ρ → σ} {q : ρ → σ → Prop}
    (h : (start.toOption.bind fun r => runOps step C ops (f r)).any (fun s => p s) = true)
    (hq : ∀ r s, start = .ok r → Runs step C (f r) s → p s → q r s) : ∃ r s, start = .ok r ∧ Runs step C (f r) s ∧ q r s := by
  cases start with
  | error e => cases h
  | ok r =>
    obtain ⟨s, hrun, hp⟩ := exists_runs ops p h (hq r · rfl)
    exact ⟨r, s, rfl, hrun, hp⟩

end

end InferenceGateway.Lib
