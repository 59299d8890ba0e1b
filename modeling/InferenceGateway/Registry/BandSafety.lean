import InferenceGateway.Registry.Bands
/-!
# Lookups of bands

The runs in which a new band never meets a draining shard, and nothing happens
to queues whose band is gone, never look up a band that is not there.
-/

namespace InferenceGateway.Registry

open Lib Queue List Function FlowRegistry

variable {α : Type} {r r' : FlowRegistry α}

/-! ## Queue operations -/

namespace ManagedQueue

variable [QueueItemAccessor α] {mq : ManagedQueue α}

/-- The operation finds nothing to change in the queue. -/
def Quiet (mq : ManagedQueue α) (isDraining : Bool) : QueueOp α → Prop
  | .add _ => isDraining = true
  | .remove handle => ∃ e, mq.queue.remove handle = .error e
  | .cleanup predicate => ∀ x ∈ mq.items, predicate x = false
  | .drain => mq.items = []

instance (isDraining : Bool) (op : QueueOp α) : Decidable (mq.Quiet isDraining op) :=
  match op with
  | .add _ => inferInstanceAs (Decidable (isDraining = true))
  | .remove handle =>
    match h : mq.queue.remove handle with
    | .error e => .isTrue ⟨e, h⟩
    | .ok _ => .isFalse fun ⟨_, he⟩ => nomatch h.symm.trans he
  | .cleanup predicate => inferInstanceAs (Decidable (∀ x ∈ mq.items, predicate x = false))
  | .drain => decidable_of_iff _ isEmpty_iff

variable [DecidableEq α] {isDraining : Bool} {op : QueueOp α}

theorem Quiet.perform (h : mq.Quiet isDraining op) : ∃ mq', mq.perform isDraining op = .ok (mq', none) := by
  cases op with
  | add x =>
    exact ⟨mq, if_pos h⟩
  | remove handle =>
    obtain ⟨e, he⟩ := h
    refine ⟨mq, ?_⟩
    simp only [ManagedQueue.perform, remove, he]
  | cleanup predicate =>
    have hr : (mq.queue.cleanup predicate).1.length = 0 := by
      rw [SafeQueue.cleanup_removed, length_eq_zero_iff, filter_eq_nil_iff]
      intro x hx
      rw [h x hx]
      exact Bool.false_ne_true
    exact ⟨_, if_pos hr⟩
  | drain =>
    have hr : mq.queue.drain.1.length = 0 := by
      rw [SafeQueue.drain_removed, length_eq_zero_iff]
      exact h
    exact ⟨_, if_pos hr⟩

variable {e : Fault}

omit [QueueItemAccessor α] [DecidableEq α] in
theorem propagate_error {d : StatsDelta} (h : mq.propagateStatsDeltaLocked d = .error e) : e = .negativeLength := by
  unfold propagateStatsDeltaLocked at h
  simp only at h
  split at h
  · cases h; rfl
  · cases h

omit [DecidableEq α] in
theorem propagateRemoved_error {res : List α × SafeQueue α} (h : mq.propagateRemoved res = .error e) :
    e = .negativeLength := by
  unfold propagateRemoved at h
  split at h
  · cases h
  · exact propagate_error h

theorem perform_error (h : mq.perform isDraining op = .error e) : e = .negativeLength := by
  cases op with
  | add x =>
    simp only [perform, add] at h
    split at h
    · cases h
    · exact propagate_error h
  | remove handle =>
    simp only [perform, remove] at h
    split at h
    · cases h
    · exact propagate_error h
  | cleanup predicate | drain => exact propagateRemoved_error h

end ManagedQueue

namespace RegistryShard

variable {s : RegistryShard α}

theorem propagate_total (key : FlowKey) (hp : key.priority ∈ s.priorityBands) (d : Option StatsDelta) :
    ∃ s', s.propagate key d = .ok (s', d) := by
  cases d with
  | none => exact ⟨s, rfl⟩
  | some d =>
    obtain ⟨band, hl⟩ := Table.mem_iff_lookup.1 hp
    simp only [propagate, propagateStatsDelta, hl, Except.map]
    exact ⟨_, rfl⟩

variable [QueueItemAccessor α] [DecidableEq α]

variable {op : QueueOp α}

variable {key : FlowKey}

/-- The queue of a flow is found through its band, so the shard's lookup succeeds. -/
theorem queueOp_total {mq mq' : ManagedQueue α} {d : Option StatsDelta}
    (hmq : s.managedQueue key = some mq) (hperf : mq.perform s.isDraining op = .ok (mq', d)) :
    ∃ s', s.queueOp key op = .ok (s', d) := by
  obtain ⟨band, hband, -⟩ := Option.bind_eq_some_iff.1 hmq
  unfold queueOp
  simp only [hmq, hperf]
  refine propagate_total key ?_ d
  rw [mem_bands_iff, (s.frame_setQueue key mq').1, ← mem_bands_iff]
  exact Table.mem_of_lookup hband

theorem queueOp_error {e : Fault} (h : s.queueOp key op = .error e) : e = .negativeLength := by
  cases hmq : s.managedQueue key with
  | none =>
    rw [queueOp, hmq] at h
    cases h
  | some mq =>
    cases hperf : mq.perform s.isDraining op with
    | error e' =>
      simp only [queueOp, hmq, hperf] at h
      cases h
      exact ManagedQueue.perform_error hperf
    | ok res =>
      obtain ⟨s', hs⟩ := queueOp_total hmq hperf
      rw [hs] at h
      cases h

theorem detachedOp_error {i : Nat} {mq : ManagedQueue α} {e : Fault} (hi : s.detached[i]? = some mq)
    (hsafe : mq.key.priority ∈ s.priorityBands ∨ mq.Quiet s.isDraining op) (h : s.detachedOp i op = .error e) :
    e = .negativeLength := by
  unfold detachedOp at h
  rw [hi] at h
  simp only at h
  split at h
  · cases h
    exact ManagedQueue.perform_error ‹_›
  · rename_i mq' d hperf
    rcases hsafe with hp | hq
    · obtain ⟨s', hs⟩ := propagate_total (s := { s with detached := s.detached.set i mq' }) mq.key hp d
      rw [hs] at h; cases h
    · obtain ⟨mq'', hq⟩ := hq.perform
      rw [hq] at hperf
      cases hperf
      cases h

end RegistryShard

namespace FlowRegistry

variable {id : Nat}

theorem Topology.finishOp (h : r.Topology) {p : Int} {s : RegistryShard α} {d : Option StatsDelta}
    (hs : s.frame = (r.shards id).frame ∧ s.config = (r.shards id).config) (hok : r.finishOp id p (s, d) = .ok r') :
    r'.Topology ∧ (r.DrainingInStep → r'.DrainingInStep) ∧ r'.config = r.config := by
  have hu : ∀ k, (update r.shards id s k).frame = (r.shards k).frame ∧
      (update r.shards id s k).config = (r.shards k).config := by
    intro k
    by_cases hk : k = id
    · subst hk; rw [update_self]; exact hs
    · rw [update_of_ne hk]; exact ⟨rfl, rfl⟩
  have hd : r.DrainingInStep → ∀ k ∈ r.drainingShards, (update r.shards id s k).Agrees r.config :=
    fun hd k hk => (hd k hk).of_frame (hu k).1
  cases d with
  | none =>
    cases hok
    exact ⟨h.of_frames hu (fun _ => Iff.rfl) _ _, hd, rfl⟩
  | some d =>
    simp only [FlowRegistry.finishOp, propagateStatsDelta] at hok
    split at hok
    · cases hok
    · rename_i stats hst
      cases hok
      refine ⟨h.of_frames hu (fun q => ?_) _ _, hd, rfl⟩
      rw [AList.mem_insert]
      constructor
      · rintro (rfl | hq)
        · exact Table.mem_of_lookup hst
        · exact hq
      · exact .inr

/-- The registry's lookup succeeds when there is something to look up for. -/
theorem Topology.finishOp_total (h : r.Topology) (id : Nat) {p : Int} (s : RegistryShard α) {d : Option StatsDelta}
    (hp : d = none ∨ p ∈ r.config.priorityBands) : ∃ r', r.finishOp id p (s, d) = .ok r' := by
  cases d with
  | none => exact ⟨_, rfl⟩
  | some d =>
    obtain ⟨stats, hst⟩ := Table.mem_iff_lookup.1 ((h.stats p).2 (hp.resolve_left nofun))
    simp only [FlowRegistry.finishOp, propagateStatsDelta, hst]
    exact ⟨_, rfl⟩

variable [QueueItemAccessor α] [DecidableEq α]

variable {op : QueueOp α}

theorem Topology.queueOp (h : r.Topology) (hok : r.queueOp id key op = .ok r') :
    r'.Topology ∧ (r.DrainingInStep → r'.DrainingInStep) ∧ r'.config = r.config := by
  unfold FlowRegistry.queueOp at hok
  split at hok
  · cases hok
  · exact h.finishOp (RegistryShard.frame_queueOp ‹_›) hok

theorem Topology.detachedOp (h : r.Topology) {i : Nat} (hok : r.detachedOp id i op = .ok r') :
    r'.Topology ∧ (r.DrainingInStep → r'.DrainingInStep) ∧ r'.config = r.config := by
  unfold FlowRegistry.detachedOp at hok
  split at hok
  · cases hok
    exact ⟨h, fun hd => hd, rfl⟩
  · split at hok
    · cases hok
    · exact h.finishOp (RegistryShard.frame_detachedOp ‹_›) hok

end FlowRegistry

/-! ## Runs -/

variable [QueueItemAccessor α]

/-- The condition on an operation. A connection that brings a new band finds no
shard draining. An operation that changes a queue finds its shard registered or
its band in the configuration; on a queue already deleted, both. -/
def Op.Safe (r : FlowRegistry α) : Op α → Prop
  | .connect key => key ∈ r.flowStates ∨ r.BandReaches key.priority
  | .queue id key op => id ∈ r.allShards ∨ key.priority ∈ r.config.priorityBands ∨
      ∀ mq ∈ (r.shards id).managedQueue key, mq.Quiet (r.shards id).isDraining op
  | .detached id i op => ∀ mq ∈ (r.shards id).detached[i]?,
      (id ∈ r.allShards ∧ mq.key.priority ∈ r.config.priorityBands) ∨ mq.Quiet (r.shards id).isDraining op
  | _ => True

instance (r : FlowRegistry α) (op : Op α) : Decidable (op.Safe r) :=
  match op with
  | .connect key => inferInstanceAs (Decidable (key ∈ r.flowStates ∨ key.priority ∈ r.config.priorityBands ∨
      r.drainingShards = []))
  | .queue id key op => inferInstanceAs (Decidable (id ∈ r.allShards ∨ key.priority ∈ r.config.priorityBands ∨
      ∀ mq ∈ (r.shards id).managedQueue key, mq.Quiet (r.shards id).isDraining op))
  | .detached id i op => inferInstanceAs (Decidable (∀ mq ∈ (r.shards id).detached[i]?,
      (id ∈ r.allShards ∧ mq.key.priority ∈ r.config.priorityBands) ∨ mq.Quiet (r.shards id).isDraining op))
  | .disconnect _ _ => .isTrue trivial
  | .tick _ => .isTrue trivial
  | .gc => .isTrue trivial
  | .scale _ => .isTrue trivial

variable [DecidableEq α]

namespace RegistryShard

variable {s s' : RegistryShard α}

/-- A change that is sent up belongs to a band of the shard, and the operation was not a quiet one. -/
theorem queueOp_delta {d : StatsDelta} (h : s.queueOp key op = .ok (s', some d)) :
    key.priority ∈ s.priorityBands ∧ ∃ mq ∈ s.managedQueue key, ¬ mq.Quiet s.isDraining op := by
  unfold queueOp at h
  split at h
  · cases h
  · rename_i mq hmq
    obtain ⟨band, hband, -⟩ := Option.bind_eq_some_iff.1 hmq
    refine ⟨Table.mem_of_lookup hband, mq, hmq, fun hq => ?_⟩
    obtain ⟨mq', hp⟩ := hq.perform
    rw [hp] at h
    cases h

theorem detachedOp_delta {i : Nat} {mq : ManagedQueue α} {d : StatsDelta}
    (hi : s.detached[i]? = some mq) (h : s.detachedOp i op = .ok (s', some d)) : ¬ mq.Quiet s.isDraining op := by
  intro hq
  obtain ⟨mq', hp⟩ := hq.perform
  unfold detachedOp at h
  rw [hi] at h
  simp only [hp] at h
  cases h

end RegistryShard

namespace FlowRegistry

variable {e : Fault}

theorem Topology.queueOp_error (h : r.Topology) (hd : r.DrainingInStep) {id : Nat}
    (hsafe : Op.Safe r (.queue id key op)) (herr : r.queueOp id key op = .error e) : e = .negativeLength := by
  unfold FlowRegistry.queueOp at herr
  split at herr
  · cases herr
    exact RegistryShard.queueOp_error ‹_›
  · rename_i res hres
    obtain ⟨s, d⟩ := res
    obtain ⟨r', hr'⟩ := h.finishOp_total id (p := key.priority) s (d := d) <| by
      cases d with
      | none => exact .inl rfl
      | some d =>
        obtain ⟨hp, mq, hmq, hnq⟩ := RegistryShard.queueOp_delta hres
        rcases hsafe with hid | hp | hq
        · exact .inr (((h.agrees_all hd hid).mem_iff _).1 hp)
        · exact .inr hp
        · exact absurd (hq mq hmq) hnq
    rw [hr'] at herr; cases herr

theorem Topology.detachedOp_error (h : r.Topology) (hd : r.DrainingInStep) {id i : Nat}
    (hsafe : Op.Safe r (.detached id i op)) (herr : r.detachedOp id i op = .error e) : e = .negativeLength := by
  unfold FlowRegistry.detachedOp at herr
  split at herr
  · cases herr
  · rename_i mq hmq
    have hmq' := hsafe mq hmq
    split at herr
    · rename_i e' he
      cases herr
      exact RegistryShard.detachedOp_error hmq
        (hmq'.imp_left fun hin => ((h.agrees_all hd hin.1).mem_iff _).2 hin.2) he
    · rename_i res hres
      obtain ⟨s, d⟩ := res
      obtain ⟨r', hr'⟩ := h.finishOp_total id (p := mq.key.priority) s (d := d) <| by
        cases d with
        | none => exact .inl rfl
        | some d => exact .inr (hmq'.resolve_right (RegistryShard.detachedOp_delta hmq hres)).2
      rw [hr'] at herr; cases herr

/-- What one step keeps, whatever it is. -/
theorem Topology.step (h : r.Topology) {op : Op α} (hok : r.step op = .ok r') :
    r'.Topology ∧ (r.DrainingInStep → op.Safe r → r'.DrainingInStep) := by
  cases op with
  | connect key =>
    obtain ⟨h1, -, h2⟩ := h.connect hok
    exact ⟨h1, h2⟩
  | disconnect key since =>
    cases hok
    obtain ⟨h1, h2, -⟩ := h.disconnect key since
    exact ⟨h1, fun hd _ => h2.2 hd⟩
  | tick d =>
    cases hok
    exact ⟨{ h with }, fun hd _ => hd⟩
  | gc =>
    cases hok
    obtain ⟨h1, h2⟩ := h.executeGCCycle
    exact ⟨h1, fun hd _ => h2 hd⟩
  | scale n =>
    obtain ⟨h1, h2, -⟩ := h.updateShardCount hok
    exact ⟨h1, fun hd _ => h2 hd⟩
  | queue id key op =>
    obtain ⟨h1, h2, -⟩ := h.queueOp hok
    exact ⟨h1, fun hd _ => h2 hd⟩
  | detached id i op =>
    obtain ⟨h1, h2, -⟩ := h.detachedOp hok
    exact ⟨h1, fun hd _ => h2 hd⟩

/-- In step, a safe operation finds every band it looks up. -/
theorem Topology.step_error (h : r.Topology) (hd : r.DrainingInStep) {op : Op α} (hsafe : op.Safe r)
    (herr : r.step op = .error e) : e = .negativeLength := by
  cases op with
  | connect key =>
    obtain ⟨r', hr'⟩ := h.connect_total hd hsafe
    rw [FlowRegistry.step, hr'] at herr; cases herr
  | scale n =>
    obtain ⟨r', hr'⟩ := h.updateShardCount_total n
    rw [FlowRegistry.step, hr'] at herr; cases herr
  | queue id key op => exact h.queueOp_error hd hsafe herr
  | detached id i op => exact h.detachedOp_error hd hsafe herr
  | _ => cases herr

omit [QueueItemAccessor α] [DecidableEq α] in
theorem emptyRegistry_topology (cfg : ValidConfig α) (now : Int) : (emptyRegistry cfg.toConfig now).Topology where
  keyed := cfg.keyed
  perm := .refl _
  nodup := nodup_nil
  below := by simp [emptyRegistry]
  active := by simp [emptyRegistry]
  stats := fun _ => Table.mem_mapVals
  timeout := cfg.priorityBandGCTimeout_pos
  flows := by simp [Unmarked, emptyRegistry]
  leases := by simp [Unmarked, emptyRegistry]

omit [QueueItemAccessor α] [DecidableEq α] in
theorem newFlowRegistry_topology (cfg : ValidConfig α) (now : Int) (hok : newFlowRegistry cfg.toConfig now = .ok r) :
    r.Topology ∧ r.DrainingInStep ∧ r.config = cfg.toConfig := by
  obtain ⟨h1, h2, h3⟩ := (emptyRegistry_topology cfg now).updateShardCount hok
  exact ⟨h1, h2 (by simp [DrainingInStep, emptyRegistry]), h3⟩

end FlowRegistry

/-- A request with an identity and a size. -/
structure Request where
  id : Nat
  size : UInt64
deriving DecidableEq, Inhabited

instance : QueueItemAccessor Request where
  byteSize x := x.size

def Request.inOrder : OrderingPolicy Request where
  typedName := "fcfs-ordering-policy"
  less x y := x.id < y.id
  requiredQueueCapabilities := [.fifo]

def Request.band (priority : Int) : PriorityBandConfig Request where
  priority := priority
  orderingPolicy := Request.inOrder
  fairnessPolicy := ⟨"global-strict-fairness-policy"⟩
  queue := "ListQueue"
  maxBytes := 1000
  maxRequests := 100

/-- One band, two shards. -/
def Request.config : ValidConfig Request where
  maxBytes := 0
  maxRequests := 0
  priorityBands := AList.singleton 0 (Request.band 0)
  defaultPriorityBand := Request.band 0
  initialShardCount := 2
  flowGCTimeout := 5
  priorityBandGCTimeout := 10
  valid := by decide +kernel
  keyed := by decide +kernel

/-- In every run whose operations meet the condition, the next such operation
finds every band it looks up, on the shards and in the registry: nothing fails
but, at most, the check that a queue's length is not negative. -/
theorem band_lookups_succeed (cfg : ValidConfig α) (now : Int) (r₀ r : FlowRegistry α)
    (h₀ : newFlowRegistry cfg.toConfig now = .ok r₀) (hrun : Runs FlowRegistry.step (fun r op => Op.Safe r op) r₀ r)
    (op : Op α) (hsafe : op.Safe r) (e : Fault) (herr : r.step op = .error e) : e = .negativeLength := by
  obtain ⟨ht, hd, -⟩ := newFlowRegistry_topology cfg now h₀
  have hinv : r.Topology ∧ r.DrainingInStep := by
    refine Runs.invariant (fun r => r.Topology ∧ r.DrainingInStep) (fun s op s' hs hC hok => ?_) ⟨ht, hd⟩ hrun
    obtain ⟨h1, h2⟩ := hs.1.step hok
    exact ⟨h1, h2 hs.2 hC⟩
  exact hinv.1.step_error hinv.2 hsafe herr

/-- A shard drains and is collected, and then a band comes that is new. -/
theorem band_lookups_succeed_after_drain : ∃ r₀ r : FlowRegistry Request,
    newFlowRegistry Request.config.toConfig 1 = .ok r₀ ∧
    Runs FlowRegistry.step (fun r op => Op.Safe r op) r₀ r ∧ Op.Safe r (.connect ⟨"b", 7⟩) ∧
    ∀ e, r.step (.connect ⟨"b", 7⟩) = .error e → e = .negativeLength :=
  exists_run
    [.connect ⟨"a", 0⟩, .queue 1 ⟨"a", 0⟩ (.add ⟨1, 10⟩), .scale 1, .queue 1 ⟨"a", 0⟩ (.remove (.own 0)), .gc]
    (fun r => Op.Safe r (.connect ⟨"b", 7⟩)) (by decide +kernel) fun r₀ r h₀ hrun hsafe =>
      ⟨hsafe, band_lookups_succeed Request.config 1 r₀ r h₀ hrun _ hsafe⟩

/-- With a shard still draining the same connection stops the program: the new
band is added to the active shards, and its queue is looked for on all. -/
theorem band_lookup_fails_on_draining_shard : ∃ r₀ r : FlowRegistry Request,
    newFlowRegistry Request.config.toConfig 1 = .ok r₀ ∧
    Runs FlowRegistry.step (fun _ _ => True) r₀ r ∧ r.step (.connect ⟨"b", 7⟩) = .error .missingBand :=
  exists_run [.scale 1] (fun r => failure (r.step (.connect ⟨"b", 7⟩)) == some .missingBand) (by decide +kernel)
    fun _ _ _ _ hfail => eq_error_of_failure (eq_of_beq hfail)

end InferenceGateway.Registry
