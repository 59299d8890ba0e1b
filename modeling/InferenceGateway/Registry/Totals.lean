import InferenceGateway.Registry.BandSafety
import InferenceGateway.Registry.Counters
/-!
# Counters of the registry

The registry's figures stand for the sums over its shards. Flows, bands and
shards that are added are empty and change no sum; a queue operation changes one
queue and sends the same change through band and shard to the registry.
-/

namespace InferenceGateway.Registry

open Lib Queue List Function RegistryShard Option

variable {α : Type} [QueueItemAccessor α] {r r' : FlowRegistry α}

namespace FlowRegistry

def bandLoad (r : FlowRegistry α) (p : Int) : Load := (r.allShards.map fun id => (r.shards id).bandLoad p).sum

def load (r : FlowRegistry α) : Load := (r.allShards.map fun id => (r.shards id).load).sum

/-- Every counter stands for the load it counts. -/
structure Agreed (r : FlowRegistry α) : Prop where
  topology : r.Topology
  within : ∀ id ∈ r.drainingShards, ∀ p, p ∈ (r.shards id).priorityBands → p ∈ r.config.priorityBands
  shards : ∀ id ∈ r.allShards, (r.shards id).Exact
  stats : ∀ p st, r.perPriorityBandStats.lookup p = some st → (⟨st.len, st.byteSize⟩ : StatsDelta) = wrap (r.bandLoad p)
  totals : (⟨r.totalLen, r.totalByteSize⟩ : StatsDelta) = wrap r.load

variable {p : Int}

/-- Bands that the registry does not know are on no shard. -/
theorem Agreed.bandLoad_eq_zero (h : r.Agreed) (hp : p ∉ r.config.priorityBands) : r.bandLoad p = 0 := by
  refine sum_eq_zero fun l hl => ?_
  obtain ⟨id, hid, rfl⟩ := List.mem_map.1 hl
  have hnot : p ∉ (r.shards id).priorityBands := by
    rcases h.topology.mem_all.1 hid with hid | hid
    · rwa [(h.topology.agrees hid).mem_iff]
    · exact fun hmem => hp (h.within id hid p hmem)
  simp only [RegistryShard.bandLoad, AList.lookup_eq_none.2 hnot, Option.map_none, Option.getD_none]

/-- Shards that are added without load, and others that stay as they are, change no sum. -/
theorem Agreed.of_still (h : r.Agreed) (ht : r'.Topology) (new : List Nat) (hall : r'.allShards.Perm (r.allShards ++ new))
    (hs : ∀ id ∈ r.allShards, (r.shards id).Still (r'.shards id))
    (hnew : ∀ id ∈ new, (r'.shards id).Exact ∧ (r'.shards id).load = 0)
    (hw : ∀ id ∈ r'.drainingShards, ∀ p, p ∈ (r'.shards id).priorityBands → p ∈ r'.config.priorityBands)
    (hst : ∀ p st, r'.perPriorityBandStats.lookup p = some st → r.perPriorityBandStats.lookup p = some st ∨
      (p ∉ r.config.priorityBands ∧ st = ⟨0, 0⟩))
    (htot : r'.totalLen = r.totalLen ∧ r'.totalByteSize = r.totalByteSize) : r'.Agreed := by
  have hsum : ∀ f : RegistryShard α → Load, (∀ id ∈ r.allShards, f (r'.shards id) = f (r.shards id)) →
      (∀ id ∈ new, f (r'.shards id) = 0) →
      (r'.allShards.map fun id => f (r'.shards id)).sum = (r.allShards.map fun id => f (r.shards id)).sum := by
    intro f hold hzero
    rw [(hall.map _).sum_eq, map_append, sum_append, map_congr_left hold,
      sum_eq_zero (l := new.map _) fun l hl => ?_, add_zero]
    obtain ⟨id, hid, rfl⟩ := List.mem_map.1 hl
    exact hzero id hid
  have hband : ∀ p, r'.bandLoad p = r.bandLoad p := fun p =>
    hsum (·.bandLoad p) (fun id hid => (hs id hid).band p) fun id hid =>
      le_antisymm ((hnew id hid).2 ▸ bandLoad_le _ p) (bandLoad_nonneg _ p)
  have hload : r'.load = r.load := hsum (·.load) (fun id hid => (hs id hid).all) fun id hid => (hnew id hid).2
  refine ⟨ht, hw, fun id hid => ?_, fun p st hl => ?_, ?_⟩
  · rcases mem_append.1 (hall.mem_iff.1 hid) with hid | hid
    · exact (hs id hid).keeps (h.shards id hid)
    · exact (hnew id hid).1
  · rw [hband]
    rcases hst p st hl with hold | ⟨hp, rfl⟩
    · exact h.stats p st hold
    · rw [h.bandLoad_eq_zero hp]; rfl
  · rw [htot.1, htot.2, hload]
    exact h.totals

/-! ## Connections -/

omit [QueueItemAccessor α] in
theorem lookup_loadOrStore {K V : Type} [DecidableEq K] {t : Table K V} {k k' : K} {v v' : V}
    (h : (loadOrStore t k v).lookup k' = some v') : t.lookup k' = some v' ∨ (k' = k ∧ k ∉ t ∧ v' = v) := by
  unfold loadOrStore at h
  split at h
  · exact .inl h
  · rename_i hk
    by_cases hkk : k' = k
    · subst hkk
      rw [AList.lookup_insert, Option.some.injEq] at h
      exact .inr ⟨rfl, hk, h.symm⟩
    · rw [AList.lookup_insert_ne hkk] at h
      exact .inl h

theorem Agreed.ensurePriorityBand (h : r.Agreed) (hok : r.ensurePriorityBand p = .ok r') : r'.Agreed := by
  have ht := (h.topology.ensurePriorityBand hok).1
  by_cases hp : p ∈ r.config.priorityBands
  · unfold FlowRegistry.ensurePriorityBand at hok
    rw [if_pos hp] at hok
    cases hok; exact h
  · obtain ⟨shards₁, shards₂, rfl, hu, ha⟩ := ensurePriorityBand_ok h.topology.nodup_active hp hok
    have hk := withBand_keyed h.topology.keyed p
    refine h.of_still ht [] (.of_eq (append_nil _).symm) (fun id _ => ?_) nofun (fun id hid q hq => ?_)
      (fun q st hl => ?_) ⟨rfl, rfl⟩
    · refine (hu.each .refl (fun _ _ _ => still_updateConfig) id).trans
        (ha.each .refl (fun id hid i => still_addPriorityBand fun c hc => ?_) id)
      obtain ⟨j, -, -, hj⟩ := hu.of_mem hid
      rw [(frame_updateConfig hj p).1] at hc
      exact hk.partition _ _ _ (Table.lookup_mem_entries.2 hc)
    · have hna : id ∉ r.activeShards := fun hmem => (nodup_append.1 h.topology.nodup).2.2 id hmem id hid rfl
      change q ∈ (shards₂ id).priorityBands at hq
      rw [ha.outside id hna, hu.outside id hna] at hq
      exact (AList.mem_insert _).2 (.inr (h.within id hid q hq))
    · rcases lookup_loadOrStore hl with hl | ⟨rfl, -, rfl⟩
      · exact .inl hl
      · exact .inr ⟨hp, rfl⟩

variable {key : FlowKey}

theorem buildFlowComponents_ok {policy : OrderingPolicy α} {q : SafeQueue α}
    (h : r.buildFlowComponents key = some (policy, q)) : q.Ok ∧ q.items = [] := by
  obtain ⟨b, -, hb⟩ := bind_eq_some_iff.1 h
  obtain ⟨q', hq', he⟩ := map_eq_some_iff.1 hb
  rw [Prod.mk.injEq] at he
  exact he.2 ▸ SafeQueue.newQueueFromName_ok hq'

variable (h : r.Agreed)
include h

theorem Agreed.synchronizeShards {ok : Bool} (hok : r.synchronizeShards key = .ok (r', ok)) :
    r'.Agreed := by
  have ht := (h.topology.synchronizeShards hok).1
  rcases synchronizeShards_ok h.topology.nodup_all hok with ⟨-, rfl⟩ | ⟨policy, q, shards, -, hc, rfl, hl⟩
  · exact h
  · have hq := buildFlowComponents_ok hc
    refine h.of_still ht [] (.of_eq (append_nil _).symm)
      (fun id _ => hl.each .refl (fun _ _ _ => still_synchronizeFlow hq) id) nofun (fun id hid p hp => ?_)
      (fun _ _ hl => .inl hl) ⟨rfl, rfl⟩
    obtain ⟨i, -, -, hs⟩ := hl.of_mem (h.topology.mem_all.2 (.inr hid))
    rw [mem_bands_iff, (frame_synchronizeFlow hs).1, ← mem_bands_iff] at hp
    exact h.within id hid p hp

/-- Leases have no part in it. -/
theorem Agreed.of_leases {flows : Table FlowKey LeasedState} {bands : Table Int LeasedState}
    (hf : Unmarked flows) (hb : Unmarked bands) : { r with flowStates := flows, priorityBandStates := bands }.Agreed where
  topology := { h.topology with flows := hf, leases := hb }
  within := h.within
  shards := h.shards
  stats := h.stats
  totals := h.totals

theorem Agreed.connect (hok : r.connect key = .ok r') : r'.Agreed :=
  connect_induction Agreed h topology (fun hx => hx.of_leases) (fun hx _ _ _ _ => hx.ensurePriorityBand)
    (fun hx => hx.synchronizeShards) hok

theorem Agreed.disconnect (key : FlowKey) (since : Int) : (r.disconnect key since).Agreed := by
  unfold FlowRegistry.disconnect
  cases hl : r.flowStates.lookup key with
  | none => exact h
  | some ls =>
    simp only
    split
    · exact h.of_leases (h.topology.flows.insert key (LeasedState.unpin_unmarked (h.topology.flows key ls hl) _))
        h.topology.leases
    · exact h

omit h

/-! ## Scaling -/

theorem synchronizeFlows_still {comps : List (FlowKey × OrderingPolicy α × SafeQueue α)}
    (hc : ∀ c ∈ comps, c.2.2.Ok ∧ c.2.2.items = []) : ∀ {s s' : RegistryShard α}, synchronizeFlows s comps = .ok s' →
    s.Still s' := by
  induction comps with
  | nil => intro s s' h; cases h; exact .refl s
  | cons c comps ih =>
    intro s s' h
    obtain ⟨key, policy, q⟩ := c
    unfold synchronizeFlows at h
    split at h
    · cases h
    · rename_i s₁ hs
      exact (still_synchronizeFlow (hc _ mem_cons_self) hs).trans
        (ih (fun c hmem => hc c (mem_cons_of_mem _ hmem)) h)

theorem buildAllComponents_ok {comps : List (FlowKey × OrderingPolicy α × SafeQueue α)}
    (h : r.buildAllComponents = some comps) : ∀ c ∈ comps, c.2.2.Ok ∧ c.2.2.items = [] := by
  intro c hmem
  obtain ⟨key, -, hkey⟩ := mem_of_mapM h hmem
  obtain ⟨⟨policy, q⟩, hb, rfl⟩ := map_eq_some_iff.1 hkey
  exact buildFlowComponents_ok hb

/-- A shard that never had a request. -/
structure Blank (s : RegistryShard α) : Prop where
  bands : ∀ p band, s.priorityBands.lookup p = some band → band.queues = ∅ ∧ band.len = 0 ∧ band.byteSize = 0
  totals : s.totalLen = 0 ∧ s.totalByteSize = 0

variable {s : RegistryShard α}

omit [QueueItemAccessor α] in
theorem Blank.initPriorityBand (h : Blank s) (c : PriorityBandConfig α) : Blank (s.initPriorityBand c) := by
  refine ⟨fun p band hl => ?_, h.totals⟩
  by_cases hp : p = c.priority
  · subst hp
    rw [RegistryShard.initPriorityBand, AList.lookup_insert, Option.some.injEq] at hl
    subst hl
    exact ⟨rfl, rfl, rfl⟩
  · rw [RegistryShard.initPriorityBand, AList.lookup_insert_ne hp] at hl
    exact h.bands p band hl

omit [QueueItemAccessor α] in
theorem blank_newShard (id : Nat) (config : ShardConfig α) : Blank (newShard id config) := by
  have hfold : ∀ (cs : List (PriorityBandConfig α)) (s : RegistryShard α), Blank s →
      Blank (cs.foldl RegistryShard.initPriorityBand s) := by
    intro cs
    induction cs with
    | nil => intro s h; exact h
    | cons c cs ih => intro s h; exact ih _ (h.initPriorityBand c)
  exact hfold _ _ ⟨fun p band hl => by simp at hl, rfl, rfl⟩

theorem Blank.exact (h : Blank s) : s.Exact ∧ s.load = 0 := by
  have hband : ∀ p band, s.priorityBands.lookup p = some band → band.load = 0 := by
    intro p band hb
    rw [PriorityBand.load, (h.bands p band hb).1, Table.total_empty]
  have hload : s.load = 0 := by
    rw [RegistryShard.load, Table.total_congr (g := fun _ _ => 0) hband]
    exact sum_eq_zero fun l hl => by
      obtain ⟨-, -, rfl⟩ := List.mem_map.1 hl
      rfl
  refine ⟨⟨fun p band hb => ⟨fun id mq hmq => ?_, ?_⟩, ?_⟩, hload⟩
  · rw [(h.bands p band hb).1] at hmq
    simp at hmq
  · rw [hband p band hb, (h.bands p band hb).2.1, (h.bands p band hb).2.2]; rfl
  · rw [hload, h.totals.1, h.totals.2]; rfl

theorem Agreed.scaleUp (h : r.Agreed) {n : Nat} (hok : r.executeScaleUpLocked n = .ok r') : r'.Agreed := by
  have ht := (h.topology.scaleUp hok).1
  have hnd := h.topology.fresh_nodup (n - r.activeShards.length)
  rcases scaleUp_ok (nodup_append.1 hnd).1 hok with rfl | ⟨comps, shards₁, r₁, hc, hl, hr, rfl⟩
  · exact h
  · obtain ⟨shards₂, rfl, hu⟩ := repartition_ok (nodup_append.1 hnd).1 hr
    have hstill : ∀ id, (shards₁ id).Still (shards₂ id) :=
      hu.each .refl fun _ _ _ => still_updateConfig
    obtain ⟨-, hold⟩ := h.topology.newShards_agrees hl
    have hperm : (r.activeShards ++ List.range' r.nextShardID (n - r.activeShards.length) ++ r.drainingShards).Perm
        (r.allShards ++ List.range' r.nextShardID (n - r.activeShards.length)) := by
      refine List.Perm.trans ?_ (h.topology.perm.symm.append_right _)
      rw [append_assoc, append_assoc]
      exact perm_append_comm.append_left _
    refine h.of_still ht _ ((updateAll_perm _).trans hperm) (fun id hid => ?_) (fun id hid => ?_) (fun id hid p hp => ?_)
      (fun _ _ hl => .inl hl) ⟨rfl, rfl⟩
    · have := hstill id
      rwa [hold id (h.topology.perm.mem_iff.1 hid)] at this
    · obtain ⟨i, -, -, hs⟩ := hl.of_mem hid
      rw [newShards, if_pos hid] at hs
      have hnew := (blank_newShard id (r.config.partition (r.activeShards.length + (id - r.nextShardID)) n)).exact
      have hst := (synchronizeFlows_still (buildAllComponents_ok hc) hs).trans (hstill id)
      exact ⟨hst.keeps hnew.1, hst.all.trans hnew.2⟩
    · have hna : id ∉ r.activeShards ++ List.range' r.nextShardID (n - r.activeShards.length) :=
        fun hmem => (nodup_append.1 hnd).2.2 id hmem id hid rfl
      have hout : shards₂ id = shards₁ id := hu.outside id hna
      change p ∈ (shards₂ id).priorityBands at hp
      rw [hout, hold id (mem_append_right _ hid)] at hp
      exact h.within id hid p hp

theorem Agreed.scaleDown (h : r.Agreed) {n : Nat} (hok : r.executeScaleDownLocked n = .ok r') : r'.Agreed := by
  have ht := (h.topology.scaleDown hok).1
  obtain ⟨r₁, hr, rfl⟩ := map_ok hok
  have hperm := r.drained_perm n
  have hnd := hperm.nodup_iff.2 h.topology.nodup
  obtain ⟨shards, rfl, hu⟩ := repartition_ok (nodup_append.1 hnd).1 hr
  have hmark := onShards_each .refl still_markAsDraining (r.activeShards.drop n) r.shards
  refine h.of_still ht [] ?_ (fun id _ => (hmark id).trans
    (hu.each .refl (fun _ _ _ => still_updateConfig) id)) nofun (fun id hid p hp => ?_)
    (fun _ _ hl => .inl hl) ⟨rfl, rfl⟩
  · rw [append_nil]
    exact (updateAll_perm _).trans (hperm.trans h.topology.perm.symm)
  · have hna : id ∉ r.activeShards.take n := fun hmem => (nodup_append.1 hnd).2.2 id hmem id hid rfl
    have hout : shards id = onShards (r.activeShards.drop n) markAsDraining r.shards id := hu.outside id hna
    have hp' : p ∈ (r.shards id).priorityBands := by
      change p ∈ (shards id).priorityBands at hp
      rw [hout, onShards] at hp
      split at hp <;> exact hp
    rcases mem_append.1 hid with hid | hid
    · exact h.within id hid p hp'
    · exact ((h.topology.agrees (mem_of_mem_drop hid)).mem_iff p).1 hp'

theorem Agreed.updateShardCount (h : r.Agreed) {n : Int} (hok : r.updateShardCount n = .ok r') : r'.Agreed := by
  unfold FlowRegistry.updateShardCount at hok
  split_ifs at hok
  · cases hok; exact h
  · cases hok; exact h
  · exact h.scaleUp hok
  · exact h.scaleDown hok

theorem newFlowRegistry_agreed (cfg : ValidConfig α) (now : Int) (hok : newFlowRegistry cfg.toConfig now = .ok r) :
    r.Agreed := by
  have hempty : (emptyRegistry cfg.toConfig now).Agreed := by
    refine ⟨emptyRegistry_topology cfg now, by simp [emptyRegistry], by simp [emptyRegistry], fun p st hl => ?_, rfl⟩
    simp only [emptyRegistry, Table.lookup_mapVals, map_eq_some_iff] at hl
    obtain ⟨-, -, rfl⟩ := hl
    rfl
  exact hempty.updateShardCount hok

/-! ## Queue operations -/

omit [QueueItemAccessor α] in
/-- What the registry does with a change that a shard sends up. -/
theorem finishOp_ok {id : Nat} {d : Option StatsDelta} (h : r.finishOp id p (s, d) = .ok r') : ∃ stats len bytes,
      r' = { r with
        shards := update r.shards id s, perPriorityBandStats := stats, totalLen := len, totalByteSize := bytes } ∧
      (⟨len, bytes⟩ : StatsDelta) = ⟨r.totalLen, r.totalByteSize⟩ + d.getD ⟨0, 0⟩ ∧
      ∀ q st, stats.lookup q = some st → ∃ st₀, r.perPriorityBandStats.lookup q = some st₀ ∧
        (⟨st.len, st.byteSize⟩ : StatsDelta) =
          ⟨st₀.len, st₀.byteSize⟩ + if q = p then d.getD ⟨0, 0⟩ else ⟨0, 0⟩ := by
  cases d with
  | none =>
    cases h
    refine ⟨_, _, _, rfl, (add_zero_delta _).symm, fun q st hl => ⟨st, hl, ?_⟩⟩
    split <;> exact (add_zero_delta _).symm
  | some d =>
    simp only [finishOp, propagateStatsDelta] at h
    split at h
    · cases h
    · rename_i st₀ hst
      cases h
      refine ⟨_, _, _, rfl, rfl, fun q st hl => ?_⟩
      by_cases hq : q = p
      · subst hq
        rw [AList.lookup_insert, Option.some.injEq] at hl
        refine ⟨st₀, hst, ?_⟩
        rw [if_pos rfl, ← hl]; rfl
      · rw [AList.lookup_insert_ne hq] at hl
        exact ⟨st, hl, by rw [if_neg hq, add_zero_delta]⟩

variable [DecidableEq α]

theorem Agreed.queueOp (h : r.Agreed) {id : Nat} (hid : id ∈ r.allShards) {op : QueueOp α}
    (hadd : ∀ x, op = .add x → ∀ mq ∈ (r.shards id).managedQueue key, x ∉ mq.items) (hok : r.queueOp id key op = .ok r') :
    r'.Agreed := by
  have ht := (h.topology.queueOp hok).1
  unfold FlowRegistry.queueOp at hok
  split at hok
  · cases hok
  · rename_i res hres
    obtain ⟨s, d⟩ := res
    obtain ⟨l, hm, hl⟩ := RegistryShard.queueOp_moves (h.shards id hid) hadd hres
    have hframe := frame_queueOp hres
    have hshards : ∀ k ∈ r.allShards, (update r.shards id s k).Exact := by
      intro k hk
      by_cases hki : k = id
      · subst hki; rw [update_self]; exact hm.keeps (h.shards k hk)
      · rw [update_of_ne hki]; exact h.shards k hk
    have hwithin : ∀ k ∈ r.drainingShards, ∀ p, p ∈ (update r.shards id s k).priorityBands →
        p ∈ r.config.priorityBands := by
      intro k hk p hp
      by_cases hki : k = id
      · subst hki
        rw [update_self, mem_bands_iff, hframe.1, ← mem_bands_iff] at hp
        exact h.within k hk p hp
      · rw [update_of_ne hki] at hp
        exact h.within k hk p hp
    obtain ⟨stats, len, bytes, rfl, htot, hst⟩ := finishOp_ok hok
    refine ⟨ht, hwithin, hshards, fun p st hlk => ?_, ?_⟩
    · have hsum := sum_map_update (fun s : RegistryShard α => s.bandLoad p) h.topology.nodup_all hid r.shards (hm.band p)
      obtain ⟨st₀, hst₀, heq⟩ := hst p st hlk
      refine Eq.trans ?_ (congrArg wrap hsum.symm)
      rw [heq, h.stats p st₀ hst₀, wrap_add, ← hl]
      split <;> rfl
    · have hsum := sum_map_update (fun s : RegistryShard α => s.load) h.topology.nodup_all hid r.shards hm.all
      refine Eq.trans ?_ (congrArg wrap hsum.symm)
      rw [htot, h.totals, wrap_add, hl]
      rfl

end FlowRegistry

end InferenceGateway.Registry
