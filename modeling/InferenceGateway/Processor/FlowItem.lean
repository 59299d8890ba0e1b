import Mathlib
/-!
# Items and their finalization

`item.go`. A request is finalized by whichever goroutine first gets through the
item's `sync.Once`; the others wait for it and change nothing. The two entry
points are `Finalize`, which infers the outcome from the cause and from whether
the item has a handle, and `FinalizeWithOutcome`.

A call is run in its atomic steps: getting through the `Once`, storing the final
state, and signalling it.
-/

namespace InferenceGateway.Processor

inductive QueueOutcome where
  | notYetFinalized
  | dispatched
  | rejectedCapacity
  | rejectedOther
  | evictedTTL
  | evictedContextCancelled
  | evictedOther
deriving DecidableEq, Repr

/-- The errors that other errors are compared with. -/
inductive Sentinel where
  | rejected
  | evicted
  | queueAtCapacity
  | ttlExpired
  | contextCancelled
  | notRunning
  | shardDraining
  | noShards
  | configuration
  | canceled
  | deadlineExceeded
  | other
deriving DecidableEq, Repr

/-- An error as the sentinels it wraps: `errors.Is` is membership, `nil` is empty. -/
abbrev Err := List Sentinel

structure FinalState where
  outcome : QueueOutcome
  err : Err
deriving DecidableEq, Repr

def inferOutcome (cause : Err) (isQueued : Bool) : FinalState :=
  let r : Err × QueueOutcome :=
    if .ttlExpired ∈ cause ∨ .deadlineExceeded ∈ cause then ([.ttlExpired], .evictedTTL)
    else if .canceled ∈ cause then (.contextCancelled :: cause, .evictedContextCancelled)
    else (cause, .evictedOther)
  if isQueued then ⟨r.2, .evicted :: r.1⟩ else ⟨.rejectedOther, .rejected :: r.1⟩

/-- A goroutine: the one of a request, the processor's, or the worker of the
eviction that has drained this item. -/
inductive Thread where
  | request (i : Nat)
  | processor
  | eviction (x : Nat)
deriving DecidableEq, Repr

/-- The state of a `sync.Once`; its mutex is held by the goroutine that runs the function. -/
inductive Once where
  | fresh
  | running (t : Thread)
  | done
deriving DecidableEq, Repr

structure FlowItem where
  /-- The handle is not `nil`. -/
  handle : Bool
  onceFinalize : Once
  finalState : Option FinalState
  /-- What the channel `done` has to receive. -/
  done : Option FinalState
deriving DecidableEq, Repr

def newItem : FlowItem where
  handle := false
  onceFinalize := .fresh
  finalState := none
  done := none

inductive FinalizeCall where
  | finalize (cause : Err)
  | finalizeWithOutcome (fs : FinalState)
deriving DecidableEq, Repr

/-- The final state that the call gives an item. -/
def FinalizeCall.result (isQueued : Bool) : FinalizeCall → FinalState
  | finalize cause => inferOutcome cause isQueued
  | finalizeWithOutcome fs => fs

inductive Stage where
  /-- Before the `Once`. -/
  | entering
  /-- Through it. -/
  | inside
  /-- The final state is stored and not yet signalled. -/
  | stored (fs : FinalState)
deriving DecidableEq, Repr

/-- A finalization that a goroutine is in the middle of. -/
structure Job where
  item : Nat
  call : FinalizeCall
  stage : Stage
deriving DecidableEq, Repr

def Job.start (x : Nat) (call : FinalizeCall) : Job := ⟨x, call, .entering⟩

/-- One atomic step of the call: the item and what is left of the call. There is
none while another goroutine is inside. -/
def Job.run (j : Job) (t : Thread) (it : FlowItem) : Option (FlowItem × Option Job) :=
  match j.stage with
  | .entering =>
    match it.onceFinalize with
    | .fresh => some ({ it with onceFinalize := .running t }, some { j with stage := .inside })
    | .running _ => none
    | .done => some (it, none)
  | .inside =>
    let fs := j.call.result it.handle
    some ({ it with finalState := some fs }, some { j with stage := .stored fs })
  | .stored fs => some ({ it with done := some fs, onceFinalize := .done }, none)

/-! ## What a call does to an item -/

/-- `inferOutcome` never says that a request was dispatched. -/
theorem inferOutcome_not_dispatched (cause : Err) (isQueued : Bool) :
    (inferOutcome cause isQueued).outcome ≠ .dispatched := by
  unfold inferOutcome
  split_ifs <;> simp

/-- The fields of an item belong together. -/
structure FlowItem.Ok (it : FlowItem) : Prop where
  fresh : it.onceFinalize = .fresh → it.finalState = none
  finished : it.onceFinalize = .done → it.finalState.isSome
  signal : ∀ fs, it.done = some fs → it.finalState = some fs

theorem newItem_ok : newItem.Ok := ⟨fun _ => rfl, nofun, nofun⟩

/-- The state of the item as the goroutine that runs the call relies on it. -/
def Job.Consistent (j : Job) (t : Thread) (it : FlowItem) : Prop :=
  match j.stage with
  | .entering => True
  | .inside => it.onceFinalize = .running t ∧ it.finalState = none ∧ it.done = none
  | .stored fs => it.onceFinalize = .running t ∧ it.finalState = some fs

variable {j j' : Job} {t : Thread} {it it' : FlowItem}

/-- A step that leaves the call unfinished. -/
theorem Job.run_some (hok : it.Ok) (hj : j.Consistent t it) (h : j.run t it = some (it', some j')) :
    it'.Ok ∧ j'.Consistent t it' ∧ j'.item = j.item ∧ j'.call = j.call := by
  unfold Job.run at h
  split at h
  · split at h
    · rename_i hfresh
      cases h
      refine ⟨⟨nofun, nofun, hok.signal⟩, ⟨rfl, hok.fresh hfresh, ?_⟩, rfl, rfl⟩
      cases hd : it.done with
      | none => rfl
      | some fs =>
        have hnone := hok.fresh hfresh
        rw [hok.signal fs hd] at hnone; cases hnone
    · cases h
    · cases h
  · rename_i hst
    cases h
    rw [Job.Consistent, hst] at hj
    refine ⟨⟨fun hf => ?_, fun _ => rfl, fun fs hd => ?_⟩, ⟨hj.1, rfl⟩, rfl, rfl⟩
    · rw [hj.1] at hf; cases hf
    · rw [hj.2.2] at hd; cases hd
  · cases h

/-- The last step: the item is finalized. -/
theorem Job.run_none (hok : it.Ok) (hj : j.Consistent t it) (h : j.run t it = some (it', none)) :
    it'.Ok ∧ it'.finalState.isSome ∧ it'.onceFinalize = .done := by
  unfold Job.run at h
  split at h
  · split at h
    · cases h
    · cases h
    · rename_i hdone
      cases h
      exact ⟨hok, hok.finished hdone, hdone⟩
  · cases h
  · rename_i fs hst
    cases h
    rw [Job.Consistent, hst] at hj
    refine ⟨⟨nofun, fun _ => ?_, fun fs' hd => ?_⟩, ?_, rfl⟩
    · rw [hj.2]; rfl
    · cases hd; exact hj.2
    · rw [hj.2]; rfl

/-- A final state is never replaced, and a new one is the result of the call. -/
theorem Job.run_finalState (hj : j.Consistent t it) {o : Option Job} (h : j.run t it = some (it', o)) :
    (∀ fs, it.finalState = some fs → it'.finalState = some fs) ∧
      ∀ fs, it'.finalState = some fs → it.finalState = some fs ∨ (j.stage = .inside ∧ fs = j.call.result it.handle) := by
  unfold Job.run at h
  split at h
  · split at h
    · cases h; exact ⟨fun _ hf => hf, fun _ hf => .inl hf⟩
    · cases h
    · cases h; exact ⟨fun _ hf => hf, fun _ hf => .inl hf⟩
  · rename_i hst
    cases h
    rw [Job.Consistent, hst] at hj
    refine ⟨fun fs hf => ?_, fun fs hf => .inr ⟨hst, (Option.some.inj hf).symm⟩⟩
    rw [hj.2.1] at hf; cases hf
  · cases h; exact ⟨fun _ hf => hf, fun _ hf => .inl hf⟩

/-- While one goroutine is inside, no other takes a step on the item; so what it
relies on stays true. -/
theorem Job.Consistent.of_run {t' : Thread} {k : Job} (hk : k.Consistent t' it) (hne : t' ≠ t) (hj : j.Consistent t it)
    {o : Option Job} (h : j.run t it = some (it', o)) : k.Consistent t' it' := by
  have hold : it.onceFinalize ≠ .running t' := by
    intro hrun
    unfold Job.run at h
    unfold Job.Consistent at hj
    split at h <;> rename_i hst <;> rw [hst] at hj
    · rw [hrun] at h; cases h
    · rw [hrun, Once.running.injEq] at hj; exact hne hj.1
    · rw [hrun, Once.running.injEq] at hj; exact hne hj.1
  unfold Job.Consistent at hk ⊢
  split
  · trivial
  · rename_i hst
    rw [hst] at hk; exact absurd hk.1 hold
  · rename_i hst
    rw [hst] at hk; exact absurd hk.1 hold

end InferenceGateway.Processor
