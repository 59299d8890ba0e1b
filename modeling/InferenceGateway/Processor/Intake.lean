import InferenceGateway.Processor.ItemSteps
/-!
# Admission step by step

`Finalize` infers from the handle whether the item was in a queue, and the queue sets
the handle after it has taken the item in. Here the steps that `System` takes at once
are taken apart: the insertion and the publication of the handle, and the load of the
handle and the store of the final state that is inferred from it. Every other step is
one of `System`, and every step of `System` is one or two of the steps here.
-/

namespace InferenceGateway.Processor

open Function

/-- A `Finalize` that is through the `Once` and has not stored the final state. -/
def Job.Infers (j : Job) : Prop := j.stage = .inside ∧ ∃ cause, j.call = .finalize cause

structure Intake where
  sys : System
  /-- The item that the processor has put in its queue without having set its handle. -/
  publishing : Option Nat
  /-- What a request that is inside `Finalize` has seen of the handle. -/
  isQueued : Nat → Option Bool
  /-- Every item that has been put in a queue. -/
  inserted : List Nat

namespace Intake

variable {cap : Nat} {a a' : Intake} {x : Nat}

def init : Intake := ⟨.init, none, fun _ => none, []⟩

/-- One atomic step. -/
inductive Step (cap : Nat) (a : Intake) : Intake → Prop where
  /-- Between the insertion and the publication the processor does nothing else, and holds the lock of the queue. -/
  | other (s' : System) (h : Processor.Step cap a.sys s') (hadd : ¬ System.Adds a.sys s')
      (hj : ∀ i j, a.sys.job (.request i) = some j → j.Infers → s'.job (.request i) = some j)
      (hp : ∀ x, a.publishing = some x → s'.processor = a.sys.processor ∧ x ∈ s'.queued) :
      Step cap a { a with sys := s' }
  | insert (x : Nat) (h : a.sys.processor = .admitting x) (hp : a.publishing = none) :
      Step cap a { a with
        sys := { a.sys with queued := a.sys.queued ++ [x], processor := .dispatching }
        publishing := some x
        inserted := x :: a.inserted }
  | setHandle (x : Nat) (h : a.publishing = some x) :
      Step cap a { a with sys := a.sys.setItem x { a.sys.items x with handle := true }, publishing := none }
  | load (i : Nat) (j : Job) (h : a.sys.job (.request i) = some j) (hj : j.Infers) (hq : a.isQueued i = none) :
      Step cap a { a with isQueued := update a.isQueued i (some (a.sys.items j.item).handle) }
  | store (i x : Nat) (cause : Err) (w b : Bool) (h : a.sys.requests i = .finalizing ⟨x, .finalize cause, .inside⟩ w)
      (hq : a.isQueued i = some b) :
      Step cap a { a with
        sys := (a.sys.setItem x { a.sys.items x with finalState := some (inferOutcome cause b) }).setRequest i
          (.finalizing ⟨x, .finalize cause, .stored (inferOutcome cause b)⟩ w)
        isQueued := update a.isQueued i none }

/-- The runs in all of whose states `P` holds. -/
def Run (cap : Nat) (P : Intake → Prop) : Intake → Intake → Prop :=
  Relation.ReflTransGen fun a a' => Step cap a a' ∧ P a'

/-! ## The steps of `System` -/

/-- A state of `System`, with nothing half done. -/
def of (s : System) (inserted : List Nat) : Intake := ⟨s, none, fun _ => none, inserted⟩

/-- A step of `System` leaves a `Finalize` where it is, or takes it past the handle. -/
theorem infers_kept {s s' : System} (h : Processor.Step cap s s') {i : Nat} {j : Job} (hj : s.job (.request i) = some j)
    (hi : j.Infers) : s'.job (.request i) = some j ∨
      ∃ w it k, s.requests i = .finalizing j w ∧ j.run (.request i) (s.items j.item) = some (it, some k) ∧
        s' = (s.setItem j.item it).setRequest i (.finalizing k w) := by
  -- a request that is inside `Finalize` is at no other place
  have other : ∀ {n : Nat} {p q : RequestPhase}, s.requests n = p → p.job = none →
      (update s.requests n q i).job = some j := by
    intro n p q hp hnone
    rw [update_of_ne]
    · exact hj
    · rintro rfl
      rw [System.job, hp, hnone] at hj
      cases hj
  cases h with
  | giveUp n h | create n h | distributionFails n x call hc h | check n x h | refused n x h | send n x h
  | handOver n x h | handOverDraining n x h | expire n x cause h | receive n x fs h | load n x w fs h =>
    exact .inl (other h rfl)
  | requestRuns n k k' w it h hr =>
    by_cases hn : i = n
    · subst hn
      rw [System.job, h] at hj
      cases hj
      exact .inr ⟨w, it, k', h, hr, rfl⟩
    · refine .inl ?_
      simp only [System.job, System.setRequest, update_of_ne hn]
      exact hj
  | requestRan n k w it h hr =>
    by_cases hn : i = n
    · subst hn
      rw [System.job, h] at hj
      cases hj
      rw [Job.run, hi.1] at hr
      cases hr
    · refine .inl ?_
      simp only [System.job, System.setRequest, update_of_ne hn]
      exact hj
  | _ => exact .inl hj

/-- Every step of `System` is one or two of the steps here. -/
theorem step_refined {s s' : System} (h : Processor.Step cap s s') (inserted : List Nat) :
    ∃ inserted', Run cap (fun _ => True) (of s inserted) (of s' inserted') := by
  by_cases hadd : System.Adds s s'
  · obtain ⟨x, hp, rfl⟩ := hadd
    refine ⟨x :: inserted, .tail (.single ⟨.insert x hp rfl, trivial⟩) ⟨?_, trivial⟩⟩
    exact .setHandle x rfl
  · by_cases hkept : ∀ i j, s.job (.request i) = some j → j.Infers → s'.job (.request i) = some j
    · exact ⟨inserted, .single ⟨.other s' h hadd hkept nofun, trivial⟩⟩
    · push Not at hkept
      obtain ⟨i, j, hj, hi, hne⟩ := hkept
      rcases infers_kept h hj hi with hsame | ⟨w, it, k, hreq, hr, rfl⟩
      · exact absurd hsame hne
      · obtain ⟨x, call, stage⟩ := j
        obtain ⟨rfl, cause, rfl⟩ := hi
        cases hr
        have hload : Step cap (of s inserted) _ := .load i _ hj ⟨rfl, cause, rfl⟩ rfl
        have hstore : Step cap ⟨s, none, update (fun _ => none) i (some (s.items x).handle), inserted⟩ _ :=
          .store i x cause w (s.items x).handle hreq (by simp)
        simp only [update_idem, update_eq_self_iff.2] at hstore
        exact ⟨inserted, .tail (.single ⟨hload, trivial⟩) ⟨hstore, trivial⟩⟩

/-- Every run of `System` is one here. -/
theorem run_refined {s : System} (h : System.Run cap .init s) :
    ∃ inserted, Run cap (fun _ => True) init (of s inserted) := by
  induction h with
  | refl => exact ⟨[], .refl⟩
  | tail _ hst ih =>
    obtain ⟨inserted, hrun⟩ := ih
    obtain ⟨inserted', hlast⟩ := step_refined hst inserted
    exact ⟨inserted', hrun.trans hlast⟩

end Intake

end InferenceGateway.Processor
