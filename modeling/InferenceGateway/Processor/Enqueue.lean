import InferenceGateway.Processor.Capacity
/-!
# Enqueue without interruption

With nothing in between, the steps of `enqueue` are the capacity check on one
snapshot and the queue operation of the registry's model.
-/

namespace InferenceGateway.Processor

open Lib Queue Registry Function RegistryShard

namespace Traffic

variable {α : Type} [QueueItemAccessor α] [DecidableEq α] {s s' : Traffic α}

def enqueue (s : Traffic α) (key : FlowKey) (x : α) : Except Fault (Traffic α) :=
  match s.shard.managedQueue key with
  | none => .ok { s with arrived := x :: s.arrived }
  | some _ =>
    if hasCapacity s.shard.snapshot key.priority (QueueItemAccessor.byteSize x) = true then
      match s.shard.queueOp key (.add x) with
      | .error e => .error e
      | .ok (_, none) => .ok { s with arrived := x :: s.arrived }
      | .ok (shard, some _) => .ok { s with shard := shard, arrived := x :: s.arrived }
    else .ok { s with arrived := x :: s.arrived }

/-- `Stats` reads what is to be read. -/
theorem reads_run (s : Traffic α) (key : FlowKey) (x : α) (rest : List Counter) : ∀ seen : Counter → Option UInt64,
    ∃ seen', Run { s with work := .reading key x seen rest } { s with work := .reading key x seen' [] } ∧
      ∀ c, (c ∈ rest ∨ seen c = some (s.shard.counter c).toUInt64) → seen' c = some (s.shard.counter c).toUInt64 := by
  induction rest with
  | nil => exact fun seen => ⟨seen, .refl, fun c hc => hc.resolve_left List.not_mem_nil⟩
  | cons c rest ih =>
    intro seen
    obtain ⟨seen', hrun, hseen⟩ := ih (update seen c (some (s.shard.counter c).toUInt64))
    refine ⟨seen', .head (.read key x seen c rest rfl) hrun, fun c' hc => hseen c' ?_⟩
    by_cases hcc : c' = c
    · subst hcc
      exact .inr (update_self ..)
    · rw [update_of_ne hcc]
      exact hc.imp_left fun hmem => (List.mem_cons.1 hmem).resolve_left hcc

/-- The additions of an `Add`. -/
theorem writes_run (todo : Propagation) : ∀ s : Traffic α, s.work = .adding todo →
    Run s { s with shard := todo.foldl (fun s e => s.addCounter e.1 e.2) s.shard, work := .idle } := by
  induction todo with
  | nil => exact fun s hw => .single (.added hw)
  | cons e todo ih =>
    intro s hw
    exact .head (.addWrites e.1 e.2 todo hw) (ih _ rfl)

/-- The check, on a snapshot. -/
theorem check_run (key : FlowKey) {x : α} (hw : s.work = .idle) (hx : x ∉ s.arrived)
    (hq : (s.shard.managedQueue key).isSome) : ∃ seen,
      Run s { s with work := .reading key x seen [], arrived := x :: s.arrived } ∧
      s.shard.stats (fun c => (seen c).getD 0) = s.shard.snapshot := by
  obtain ⟨seen, hrun, hseen⟩ := reads_run { s with arrived := x :: s.arrived } key x s.shard.statsReads fun _ => none
  refine ⟨seen, .head (.receive key x hw hx) (.head (.check key x rfl hq) hrun), stats_congr fun c hc => ?_⟩
  rw [hseen c (.inl (mem_statsReads hc))]
  rfl

theorem enqueue_run {key : FlowKey} {x : α} (hw : s.work = .idle) (hx : x ∉ s.arrived)
    (h : s.enqueue key x = .ok s') : Run s s' ∧ s'.work = .idle := by
  -- where the item goes no further, the processor is idle again
  have back : { s with work := Work.idle, arrived := x :: s.arrived } = { s with arrived := x :: s.arrived } := by
    rw [← hw]
  unfold enqueue at h
  split at h
  · cases h
    refine ⟨?_, hw⟩
    rw [← back]
    exact .head (.receive key x hw hx) (.single (.discard key x rfl))
  · rename_i mq hmq
    obtain ⟨seen, hrun, hstats⟩ := check_run key hw hx (by rw [hmq]; rfl)
    split at h
    · rename_i hcap
      rw [← hstats] at hcap
      have hadm := hrun.tail (.approve key x seen rfl hcap)
      unfold queueOp at h
      rw [hmq] at h
      simp only [ManagedQueue.perform] at h
      cases hadd : mq.add s.shard.isDraining x with
      | error e => rw [hadd] at h; cases h
      | ok r =>
        obtain ⟨mq', d⟩ := r
        rw [hadd] at h
        cases d with
        | none =>
          cases h
          refine ⟨?_, hw⟩
          rw [← back]
          exact hadm.tail (.addRefused key x mq mq' rfl hmq hadd)
        | some d =>
          have hp : key.priority ∈ (s.shard.setQueue key mq').priorityBands := by
            obtain ⟨band, hb, -⟩ := Option.bind_eq_some_iff.1 hmq
            rw [mem_bands_iff, (s.shard.frame_setQueue key mq').1, ← mem_bands_iff]
            exact Table.mem_of_lookup hb
          simp only [propagate, propagateStatsDelta_eq hp] at h
          cases h
          have hadded := hadm.tail (.add key x mq mq' d rfl hmq hadd)
          refine ⟨hadded.trans ?_, hw⟩
          have hwrites := writes_run (statsWrites key.priority d) { s with
            shard := s.shard.setQueue key mq', arrived := x :: s.arrived
            work := .adding (statsWrites key.priority d) } rfl
          rw [hw]
          exact hwrites
    · rename_i hcap
      cases h
      rw [Bool.not_eq_true, ← hstats] at hcap
      refine ⟨?_, hw⟩
      rw [← back]
      exact hrun.tail (.reject key x seen rfl hcap)

/-- What happens to one shard, one thing after the other. -/
inductive Event (α : Type) where
  | connect (key : FlowKey) (policy : OrderingPolicy α) (name : String)
  | enqueue (key : FlowKey) (x : α)

def apply (s : Traffic α) : Event α → Except Fault (Traffic α)
  | .connect key policy name =>
    match newQueueFromName name policy with
    | none => .ok s
    | some q => (s.shard.synchronizeFlow key policy q).map fun shard => { s with shard := shard }
  | .enqueue key x => if x ∈ s.arrived then .ok s else s.enqueue key x

theorem apply_run {e : Event α} (hw : s.work = .idle) (h : s.apply e = .ok s') : Run s s' ∧ s'.work = .idle := by
  cases e with
  | connect key policy name =>
    simp only [apply] at h
    split at h
    · cases h
      exact ⟨.refl, hw⟩
    · rename_i q hq
      obtain ⟨shard, hs, rfl⟩ := map_ok h
      exact ⟨.single (.synchronizeFlow key policy name q shard hq hs), hw⟩
  | enqueue key x =>
    simp only [apply] at h
    split at h
    · cases h
      exact ⟨.refl, hw⟩
    · rename_i hx
      exact enqueue_run hw hx h

/-- Events one after the other are a run. -/
theorem run_of_runs (hw : s.work = .idle) (h : Runs apply (fun _ _ => True) s s') : Run s s' ∧ s'.work = .idle :=
  Runs.invariant (fun t => Run s t ∧ t.work = .idle)
    (fun _ _ _ ht _ hok => let h := apply_run ht.2 hok; ⟨ht.1.trans h.1, h.2⟩) ⟨.refl, hw⟩ h

end Traffic

end InferenceGateway.Processor
