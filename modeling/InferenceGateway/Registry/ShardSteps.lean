import InferenceGateway.Registry.BandSafety
/-!
# What happens to one shard

Every operation of the registry takes a shard through steps of the shard's own. This
lists the steps, and goes through the operations once; what every step keeps, every
operation then keeps on every shard.
-/

namespace InferenceGateway.Registry

open Lib Queue List Function FlowRegistry

variable {α : Type}

/-- Each band is filed under its own priority. -/
def ShardConfig.Keyed (c : ShardConfig α) : Prop := ∀ p b, c.priorityBands.lookup p = some b → b.priority = p

theorem Config.Keyed.shardConfig {c : Config α} (h : c.Keyed) (i n : Nat) : (c.partition i n).Keyed := by
  intro p b hb
  exact h.partition i n ⟨p, b⟩ (Table.lookup_mem_entries.2 hb)

section
variable [QueueItemAccessor α] [DecidableEq α]

inductive ShardStep (s : RegistryShard α) : RegistryShard α → Prop where
  | synchronizeFlow (key : FlowKey) (policy : OrderingPolicy α) (q : SafeQueue α) (s' : RegistryShard α)
      (h : s.synchronizeFlow key policy q = .ok s') : ShardStep s s'
  | deleteFlow (key : FlowKey) : ShardStep s (s.deleteFlow key)
  | queueOp (key : FlowKey) (op : QueueOp α) (s' : RegistryShard α) (d : Option StatsDelta)
      (h : s.queueOp key op = .ok (s', d)) : ShardStep s s'
  | detachedOp (i : Nat) (op : QueueOp α) (s' : RegistryShard α) (d : Option StatsDelta)
      (h : s.detachedOp i op = .ok (s', d)) : ShardStep s s'
  | updateConfig (newConfig : ShardConfig α) (s' : RegistryShard α) (hk : newConfig.Keyed)
      (h : s.updateConfig newConfig = .ok s') : ShardStep s s'
  | addPriorityBand (p : Int) (s' : RegistryShard α) (h : s.addPriorityBand p = .ok s') : ShardStep s s'
  | deletePriorityBand (p : Int) : ShardStep s (s.deletePriorityBand p)
  | markAsDraining : ShardStep s s.markAsDraining

abbrev ShardSteps : RegistryShard α → RegistryShard α → Prop := Relation.ReflTransGen ShardStep

namespace FlowRegistry

variable {r r' r'' : FlowRegistry α}

/-- The same shards are active, and each shard has taken steps. -/
structure Moves (r r' : FlowRegistry α) : Prop where
  active : r'.activeShards = r.activeShards
  shards : ∀ id, ShardSteps (r.shards id) (r'.shards id)

theorem Moves.refl (r : FlowRegistry α) : r.Moves r := ⟨rfl, fun _ => .refl⟩

theorem Moves.trans (h : r.Moves r') (h' : r'.Moves r'') : r.Moves r'' :=
  ⟨h'.active.trans h.active, fun id => (h.shards id).trans (h'.shards id)⟩

/-- Only the shards count. -/
theorem Moves.of_eq (ha : r'.activeShards = r.activeShards) (hs : r'.shards = r.shards) : r.Moves r' :=
  ⟨ha, fun id => by rw [hs]⟩

/-! ## Connections -/

variable (h : r.Topology)
include h

theorem Topology.ensurePriorityBand_moves {p : Int} (hok : r.ensurePriorityBand p = .ok r') : r.Moves r' := by
  by_cases hp : p ∈ r.config.priorityBands
  · rw [FlowRegistry.ensurePriorityBand, if_pos hp] at hok
    cases hok
    exact .refl r
  · obtain ⟨shards₁, shards₂, rfl, hu, ha⟩ := ensurePriorityBand_ok h.nodup_active hp hok
    refine ⟨rfl, fun id => (hu.each (P := ShardSteps) (fun _ => .refl) (fun _ _ i hs => ?_) id).trans
      (ha.each (P := ShardSteps) (fun _ => .refl) (fun _ _ i hs => ?_) id)⟩
    · exact .single (.updateConfig _ _ ((withBand_keyed h.keyed p).shardConfig i _) hs)
    · exact .single (.addPriorityBand p _ hs)

variable {key : FlowKey}

theorem Topology.synchronizeShards_moves {ok : Bool} (hok : r.synchronizeShards key = .ok (r', ok)) :
    r.Moves r' := by
  rcases synchronizeShards_ok h.nodup_all hok with ⟨-, rfl⟩ | ⟨policy, q, shards, -, -, rfl, hl⟩
  · exact .refl r'
  · exact ⟨rfl, hl.each (P := ShardSteps) (fun _ => .refl) fun _ _ i hs => .single (.synchronizeFlow key policy q _ hs)⟩

theorem Topology.connect_moves (hok : r.connect key = .ok r') : r.Moves r' :=
  And.right <| connect_induction (fun x => x.Topology ∧ r.Moves x) ⟨h, .refl r⟩ And.left
    (fun ⟨ht, hm⟩ hf hb => ⟨{ ht with flows := hf, leases := hb }, hm.trans (.of_eq rfl rfl)⟩)
    (fun ⟨ht, hm⟩ _ _ _ _ he => ⟨(ht.ensurePriorityBand he).1, hm.trans (ht.ensurePriorityBand_moves he)⟩)
    (fun ⟨ht, hm⟩ hs => ⟨(ht.synchronizeShards hs).1, hm.trans (ht.synchronizeShards_moves hs)⟩) hok

omit h

theorem disconnect_moves (r : FlowRegistry α) (key : FlowKey) (since : Int) : r.Moves (r.disconnect key since) := by
  unfold disconnect
  split
  · exact .refl r
  · split
    · exact .of_eq rfl rfl
    · exact .refl r

/-! ## Garbage collection -/

theorem cleanupFlowResources_moves (keys : List FlowKey) : ∀ r : FlowRegistry α, r.Moves (r.cleanupFlowResources keys) := by
  induction keys with
  | nil => intro r; exact .refl r
  | cons key keys ih =>
    intro r
    unfold cleanupFlowResources
    refine .trans ?_ (ih _)
    split
    · exact .refl r
    · exact ⟨rfl, onShards_each (P := ShardSteps) (fun _ => .refl) (fun _ => .single (.deleteFlow key)) _ r.shards⟩

theorem deleteBand_moves (r : FlowRegistry α) (p : Int) : r.Moves (r.deleteBand p) := by
  unfold deleteBand
  split
  · exact .refl r
  · exact ⟨rfl, onShards_each (P := ShardSteps) (fun _ => .refl) (fun _ => .single (.deletePriorityBand p)) _ r.shards⟩

theorem cleanupPriorityBandResources_moves (ps : List Int) : ∀ r : FlowRegistry α,
    r.Moves (r.cleanupPriorityBandResources ps) := by
  induction ps with
  | nil => intro r; exact .refl r
  | cons p ps ih => intro r; exact (r.deleteBand_moves p).trans (ih _)

theorem gcFlows_moves (r : FlowRegistry α) : r.Moves r.gcFlows := by
  refine .trans ?_ (cleanupFlowResources_moves _ _)
  exact .of_eq rfl rfl

theorem gcPriorityBands_moves (r : FlowRegistry α) : r.Moves r.gcPriorityBands := by
  refine .trans ?_ (cleanupPriorityBandResources_moves _ _)
  exact .of_eq rfl rfl

theorem sweepDrainingShards_moves (r : FlowRegistry α) : r.Moves r.sweepDrainingShards := by
  unfold sweepDrainingShards
  simp only
  split
  · exact .refl r
  · exact .of_eq rfl rfl

theorem executeGCCycle_moves (r : FlowRegistry α) : r.Moves r.executeGCCycle :=
  (r.gcFlows_moves.trans r.gcFlows.gcPriorityBands_moves).trans (sweepDrainingShards_moves _)

/-! ## Queues -/

variable {id : Nat}

theorem finishOp_moves {p : Int} {s : RegistryShard α} {d : Option StatsDelta} (hs : ShardStep (r.shards id) s)
    (h : r.finishOp id p (s, d) = .ok r') : r.Moves r' := by
  have hmoves : ∀ k, ShardSteps (r.shards k) (update r.shards id s k) := by
    intro k
    by_cases hk : k = id
    · subst hk
      rw [update_self]
      exact .single hs
    · rw [update_of_ne hk]
  cases d with
  | none =>
    cases h
    exact ⟨rfl, hmoves⟩
  | some d =>
    simp only [finishOp, propagateStatsDelta] at h
    split at h
    · cases h
    · cases h
      exact ⟨rfl, hmoves⟩

theorem queueOp_moves {op : QueueOp α} (h : r.queueOp id key op = .ok r') : r.Moves r' := by
  unfold queueOp at h
  split at h
  · cases h
  · rename_i res hres
    exact finishOp_moves (.queueOp key op _ _ hres) h

theorem detachedOp_moves {i : Nat} {op : QueueOp α} (h : r.detachedOp id i op = .ok r') : r.Moves r' := by
  unfold detachedOp at h
  split at h
  · cases h
    exact .refl r
  · split at h
    · cases h
    · rename_i res hres
      exact finishOp_moves (.detachedOp i op _ _ hres) h

/-! ## Scaling -/

/-- A scaling operation either changes nothing or leaves the number of active shards it was asked for, each shard
with steps taken since it was there before, or since it was made under the configuration. -/
structure Scales (r r' : FlowRegistry α) (n : Int) : Prop where
  pos : 0 < n
  active : r'.activeShards.length = n.toNat
  shards : ∀ id, ShardSteps (r.shards id) (r'.shards id) ∨
    ∃ i m, ShardSteps (.newShard id (r.config.partition i m)) (r'.shards id)

theorem synchronizeFlows_steps (comps : List (FlowKey × OrderingPolicy α × SafeQueue α)) : ∀ {s s' : RegistryShard α},
    synchronizeFlows s comps = .ok s' → ShardSteps s s' := by
  induction comps with
  | nil => intro s s' h; cases h; exact .refl
  | cons c comps ih =>
    intro s s' h
    obtain ⟨key, policy, q⟩ := c
    unfold synchronizeFlows at h
    split at h
    · cases h
    · rename_i s₁ hs
      exact .head (.synchronizeFlow key policy q _ hs) (ih h)

theorem repartition_moves (h : r.repartitionShardConfigsLocked = .ok r') (hn : r.activeShards.Nodup) (hk : r.config.Keyed) :
    r.Moves r' := by
  obtain ⟨shards, rfl, hl⟩ := repartition_ok hn h
  exact ⟨rfl, hl.each (P := ShardSteps) (fun _ => .refl) fun _ _ i hs => .single (.updateConfig _ _ (hk.shardConfig i _) hs)⟩

variable (h : r.Topology)
include h

theorem Topology.scaleUp_scales {n : Nat} (hn : r.activeShards.length < n)
    (hok : r.executeScaleUpLocked n = .ok r') : r' = r ∧ r.buildAllComponents = none ∨ r.Scales r' n := by
  have hnd := (nodup_append.1 (h.fresh_nodup (n - r.activeShards.length))).1
  unfold executeScaleUpLocked at hok
  split at hok
  · rename_i hnone
    cases hok
    exact .inl ⟨rfl, hnone⟩
  · rename_i comps hcomps
    split at hok
    · cases hok
    · rename_i shards₁ hs
      obtain ⟨r₁, hr, rfl⟩ := map_ok hok
      have hl := loop_of_forAll nodup_range' hs
      have hmoves := repartition_moves hr hnd h.keyed
      refine .inr ⟨by omega, ?_, fun id => ?_⟩
      · show r₁.activeShards.length = _
        rw [hmoves.active, length_append, length_range']
        omega
      · have hlast : ShardSteps (shards₁ id) (r₁.shards id) := hmoves.shards id
        have hfirst := hl.each (P := ShardSteps) (fun _ => .refl) (fun _ _ _ => synchronizeFlows_steps comps) id
        unfold newShards at hfirst
        split at hfirst
        · exact .inr ⟨_, _, hfirst.trans hlast⟩
        · exact .inl (hfirst.trans hlast)

theorem Topology.scaleDown_scales {n : Nat} (hpos : 0 < n) (hn : n < r.activeShards.length)
    (hok : r.executeScaleDownLocked n = .ok r') : r.Scales r' n := by
  obtain ⟨r₁, hr, rfl⟩ := map_ok hok
  have hmoves := repartition_moves hr (h.nodup_active.sublist (take_sublist _ _)) h.keyed
  refine ⟨by omega, ?_, fun id => .inl ?_⟩
  · show r₁.activeShards.length = _
    rw [hmoves.active, length_take]
    omega
  · exact (onShards_each (P := ShardSteps) (fun _ => .refl) (fun _ => .single .markAsDraining) _ r.shards id).trans
      (hmoves.shards id)

theorem Topology.updateShardCount_scales {n : Int} (hok : r.updateShardCount n = .ok r') :
    r' = r ∧ (n ≤ 0 ∨ n = r.activeShards.length ∨ r.buildAllComponents = none) ∨ r.Scales r' n := by
  unfold FlowRegistry.updateShardCount at hok
  split_ifs at hok with hpos heq hup
  · cases hok
    exact .inl ⟨rfl, .inl hpos⟩
  · cases hok
    exact .inl ⟨rfl, .inr (.inl heq)⟩
  · obtain ⟨m, rfl⟩ := Int.eq_ofNat_of_zero_le (show 0 ≤ n by omega)
    rcases h.scaleUp_scales (by omega) hok with ⟨hsame, hnone⟩ | hs
    · exact .inl ⟨hsame, .inr (.inr hnone)⟩
    · exact .inr hs
  · obtain ⟨m, rfl⟩ := Int.eq_ofNat_of_zero_le (show 0 ≤ n by omega)
    exact .inr (h.scaleDown_scales (by omega) (by omega) hok)

/-- What an operation does to the shards: it moves them, or it is a scaling operation. -/
theorem Topology.step_moves {op : Op α} (hok : r.step op = .ok r') :
    r.Moves r' ∨ ∃ n, op = .scale n ∧ r.Scales r' n := by
  cases op with
  | connect key => exact .inl (h.connect_moves hok)
  | disconnect key since => cases hok; exact .inl (r.disconnect_moves key since)
  | tick d => cases hok; exact .inl (.of_eq rfl rfl)
  | gc => cases hok; exact .inl r.executeGCCycle_moves
  | scale n =>
    rcases h.updateShardCount_scales hok with ⟨rfl, -⟩ | hs
    · exact .inl (.refl r')
    · exact .inr ⟨n, rfl, hs⟩
  | queue id key op => exact .inl (queueOp_moves hok)
  | detached id i op => exact .inl (detachedOp_moves hok)

end FlowRegistry

end

end InferenceGateway.Registry
