import InferenceGateway.Lib.Runs
import InferenceGateway.Registry.Effects
/-!
# Shards, bands and configuration

The registry keeps its configuration, the bands of each shard and its own
statistics in step. Every operation keeps the active shards in step. A band that
is new while a shard is draining does not reach that shard, so for draining
shards this needs a condition on connections; the unchecked lookups of bands are
safe in the runs that meet it, and not in others.
-/

namespace InferenceGateway.Registry

open Lib Queue List RegistryShard

variable {α : Type} {r r' : FlowRegistry α}

namespace FlowRegistry

/-- What every operation keeps. -/
structure Topology (r : FlowRegistry α) : Prop where
  keyed : r.config.Keyed
  perm : r.allShards.Perm (r.activeShards ++ r.drainingShards)
  nodup : (r.activeShards ++ r.drainingShards).Nodup
  below : ∀ id ∈ r.activeShards ++ r.drainingShards, id < r.nextShardID
  active : ∀ i (hi : i < r.activeShards.length),
    (r.shards r.activeShards[i]).Carries r.config i r.activeShards.length
  stats : ∀ p, p ∈ r.perPriorityBandStats ↔ p ∈ r.config.priorityBands
  timeout : 0 < r.config.priorityBandGCTimeout
  flows : Unmarked r.flowStates
  leases : Unmarked r.priorityBandStates

/-- The draining shards have the bands of the configuration too. -/
def DrainingInStep (r : FlowRegistry α) : Prop := ∀ id ∈ r.drainingShards, (r.shards id).Agrees r.config

variable (h : r.Topology)
include h

theorem Topology.nodup_active : r.activeShards.Nodup := (nodup_append.1 h.nodup).1

theorem Topology.nodup_all : r.allShards.Nodup := h.perm.nodup_iff.2 h.nodup

variable {id : Nat}

theorem Topology.mem_all : id ∈ r.allShards ↔ id ∈ r.activeShards ∨ id ∈ r.drainingShards := by
  rw [h.perm.mem_iff, mem_append]

theorem Topology.agrees (hid : id ∈ r.activeShards) : (r.shards id).Agrees r.config := by
  obtain ⟨i, hi, rfl⟩ := getElem_of_mem hid
  exact (h.active i hi).agrees

theorem Topology.agrees_all (hd : r.DrainingInStep) (hid : id ∈ r.allShards) :
    (r.shards id).Agrees r.config := by
  rcases h.mem_all.1 hid with hid | hid
  · exact h.agrees hid
  · exact hd id hid

variable {shards : Nat → RegistryShard α}

/-- An operation that leaves lists, configuration and the frames of the shards alone. -/
theorem Topology.of_frames {stats : Table Int BandStats}
    (hs : ∀ id, (shards id).frame = (r.shards id).frame ∧ (shards id).config = (r.shards id).config)
    (hst : ∀ p, p ∈ stats ↔ p ∈ r.perPriorityBandStats) (len bytes : Int64) :
    { r with shards := shards, perPriorityBandStats := stats, totalLen := len, totalByteSize := bytes }.Topology :=
  { h with
    active := fun i hi => (h.active i hi).of_frame (hs _)
    stats := fun p => (hst p).trans (h.stats p) }

omit h

/-! ## Repartition -/

theorem repartition_carries (h : r.repartitionShardConfigsLocked = .ok r') (hn : r.activeShards.Nodup)
    (hk : r.config.Keyed) (ha : ∀ id ∈ r.activeShards, (r.shards id).Agrees r.config) :
    ∃ shards, r' = { r with shards := shards } ∧
      (∀ i (hi : i < r.activeShards.length), (shards r.activeShards[i]).Carries r.config i r.activeShards.length) ∧
      ∀ id, id ∉ r.activeShards → shards id = r.shards id := by
  obtain ⟨shards, rfl, hl⟩ := repartition_ok hn h
  exact ⟨shards, rfl, fun i hi => (ha _ (getElem_mem hi)).updateConfig hk (hl.inside i hi), hl.outside⟩

theorem updateAll_perm (r : FlowRegistry α) :
    r.updateAllShardsCacheLocked.allShards.Perm (r.activeShards ++ r.drainingShards) := perm_insertionSort _ _

variable (h : r.Topology)
include h

/-- The end of a scaling operation: every shard of the new list agrees with the
configuration, and gets its share of it. -/
theorem Topology.rescale {active draining : List Nat} {next : Nat} (hn : (active ++ draining).Nodup)
    (hb : ∀ id ∈ active ++ draining, id < next) (ha : ∀ id ∈ active, (shards id).Agrees r.config) (hr : { r with
      shards := shards, activeShards := active, drainingShards := draining,
      nextShardID := next }.repartitionShardConfigsLocked = .ok r') : r'.updateAllShardsCacheLocked.Topology ∧
      ∃ shards', r' = { r with
        shards := shards', activeShards := active, drainingShards := draining, nextShardID := next } ∧
        ∀ id, id ∉ active → shards' id = shards id := by
  obtain ⟨shards', rfl, hc, ho⟩ := repartition_carries hr (nodup_append.1 hn).1 h.keyed ha
  exact ⟨{ h with perm := updateAll_perm _, nodup := hn, below := hb, active := hc }, shards', rfl, ho⟩

/-- It succeeds. -/
theorem Topology.rescale_total (shards : Nat → RegistryShard α) {active draining : List Nat} (next : Nat)
    (hn : (active ++ draining).Nodup) (ha : ∀ id ∈ active, (shards id).Agrees r.config) :
    ∃ r', { r with
      shards := shards, activeShards := active, drainingShards := draining,
      nextShardID := next }.repartitionShardConfigsLocked = .ok r' :=
  repartition_total (nodup_append.1 hn).1 h.keyed fun id hid p hp => ((ha id hid).mem_iff p).1 hp

/-! ## Scaling -/

theorem Topology.fresh_nodup (k : Nat) :
    (r.activeShards ++ List.range' r.nextShardID k ++ r.drainingShards).Nodup := by
  have hperm : (r.activeShards ++ List.range' r.nextShardID k ++ r.drainingShards).Perm
      ((r.activeShards ++ r.drainingShards) ++ List.range' r.nextShardID k) := by
    rw [append_assoc, append_assoc]
    exact (perm_append_comm).append_left _
  rw [hperm.nodup_iff, nodup_append]
  refine ⟨h.nodup, nodup_range', fun a ha b hb => ?_⟩
  have := h.below a ha
  rw [mem_range'_1] at hb
  omega

variable {n : Nat}

/-- New shards are made under the configuration and keep its bands; the rest are as they were. -/
theorem Topology.newShards_loop {f : Nat → RegistryShard α → Except Fault (RegistryShard α)}
    (hf : ∀ i s s', f i s = .ok s' → s'.frame = s.frame)
    (hl : Loop (List.range' r.nextShardID (n - r.activeShards.length)) f (r.newShards n) shards) :
    (∀ id ∈ r.activeShards ++ List.range' r.nextShardID (n - r.activeShards.length), (shards id).Agrees r.config) ∧
      ∀ id, id ∈ r.activeShards ++ r.drainingShards → shards id = r.shards id := by
  have hold : ∀ id, id ∈ r.activeShards ++ r.drainingShards → shards id = r.shards id := by
    intro id hid
    have hnot : id ∉ List.range' r.nextShardID (n - r.activeShards.length) := by
      have := h.below id hid
      rw [mem_range'_1]
      omega
    rw [hl.outside id hnot, newShards, if_neg hnot]
  refine ⟨fun id hid => ?_, hold⟩
  rcases mem_append.1 hid with hid | hid
  · rw [hold id (mem_append_left _ hid)]
    exact h.agrees hid
  · obtain ⟨i, hi, -, hs⟩ := hl.of_mem hid
    rw [newShards, if_pos hid] at hs
    exact (newShard_carries h.keyed id).agrees.of_frame (hf i _ _ hs)

variable {comps : List (FlowKey × OrderingPolicy α × SafeQueue α)}

theorem Topology.newShards_agrees
    (hl : Loop (List.range' r.nextShardID (n - r.activeShards.length)) (fun _ s => synchronizeFlows s comps)
      (r.newShards n) shards) :
    (∀ id ∈ r.activeShards ++ List.range' r.nextShardID (n - r.activeShards.length), (shards id).Agrees r.config) ∧
      ∀ id, id ∈ r.activeShards ++ r.drainingShards → shards id = r.shards id :=
  h.newShards_loop (fun _ _ _ hs => (frame_synchronizeFlows hs).1) hl

theorem Topology.scaleUp (hok : r.executeScaleUpLocked n = .ok r') :
    r'.Topology ∧ (r.DrainingInStep → r'.DrainingInStep) ∧ r'.config = r.config := by
  have hnd := h.fresh_nodup (n - r.activeShards.length)
  rcases scaleUp_ok (nodup_append.1 hnd).1 hok with rfl | ⟨comps, shards₁, r₁, -, hl, hr, rfl⟩
  · exact ⟨h, id, rfl⟩
  · obtain ⟨hagree, hold⟩ := h.newShards_agrees hl
    obtain ⟨ht, shards₂, rfl, hout⟩ := h.rescale hnd (fun id hid => by
      simp only [mem_append, mem_range'_1] at hid
      rcases hid with (hid | hid) | hid
      · exact Nat.lt_add_right _ (h.below id (mem_append_left _ hid))
      · exact hid.2
      · exact Nat.lt_add_right _ (h.below id (mem_append_right _ hid))) hagree hr
    refine ⟨ht, fun hd id hid => ?_, rfl⟩
    have hna : id ∉ r.activeShards ++ List.range' r.nextShardID (n - r.activeShards.length) :=
      fun hmem => (nodup_append.1 hnd).2.2 id hmem id hid rfl
    change (shards₂ id).Agrees r.config
    rw [hout id hna, hold id (mem_append_right _ hid)]
    exact hd id hid

omit h

theorem agrees_onShards {c : Config α} {ids : List Nat} {f : RegistryShard α → RegistryShard α}
    (hf : ∀ s, (f s).frame = s.frame) (h : (shards id).Agrees c) : (onShards ids f shards id).Agrees c := by
  unfold onShards
  split
  · exact h.of_frame (hf _)
  · exact h

theorem drained_perm (r : FlowRegistry α) (n : Nat) :
    (r.activeShards.take n ++ (r.drainingShards ++ r.activeShards.drop n)).Perm (r.activeShards ++ r.drainingShards) := by
  have hswap := (@perm_append_comm _ r.drainingShards (r.activeShards.drop n)).append_left (r.activeShards.take n)
  rwa [← append_assoc _ (r.activeShards.drop n), take_append_drop] at hswap

theorem Topology.scaleDown (h : r.Topology) (hok : r.executeScaleDownLocked n = .ok r') :
    r'.Topology ∧ (r.DrainingInStep → r'.DrainingInStep) ∧ r'.config = r.config := by
  obtain ⟨r₁, hr, rfl⟩ := map_ok hok
  have hperm := r.drained_perm n
  have hnd := hperm.nodup_iff.2 h.nodup
  obtain ⟨ht, shards, rfl, hout⟩ := h.rescale hnd (fun id hid => h.below id (hperm.mem_iff.1 hid))
    (fun id hid => agrees_onShards (f := .markAsDraining) (fun _ => rfl) (h.agrees (mem_of_mem_take hid))) hr
  refine ⟨ht, fun hd id hid => ?_, rfl⟩
  have hna : id ∉ r.activeShards.take n := fun hmem => (nodup_append.1 hnd).2.2 id hmem id hid rfl
  change (shards id).Agrees r.config
  rw [hout id hna]
  apply agrees_onShards (f := .markAsDraining) fun _ => rfl
  rcases mem_append.1 hid with hid | hid
  · exact hd id hid
  · exact h.agrees (mem_of_mem_drop hid)

theorem Topology.updateShardCount (h : r.Topology) {n : Int} (hok : r.updateShardCount n = .ok r') :
    r'.Topology ∧ (r.DrainingInStep → r'.DrainingInStep) ∧ r'.config = r.config := by
  unfold FlowRegistry.updateShardCount at hok
  split_ifs at hok
  · cases hok; exact ⟨h, id, rfl⟩
  · cases hok; exact ⟨h, id, rfl⟩
  · exact h.scaleUp hok
  · exact h.scaleDown hok

/-- Every flow whose components were built has its band in the configuration. -/
theorem buildAllComponents_mem (h : r.buildAllComponents = some comps) :
    ∀ c ∈ comps, c.1.priority ∈ r.config.priorityBands := by
  intro c hc
  obtain ⟨key, -, hkey⟩ := mem_of_mapM h hc
  obtain ⟨comp, hcomp, rfl⟩ := Option.map_eq_some_iff.1 hkey
  obtain ⟨band, hband, -⟩ := Option.bind_eq_some_iff.1 hcomp
  exact Table.mem_of_lookup hband

theorem synchronizeFlows_total : ∀ {s : RegistryShard α},
    (∀ c ∈ comps, c.1.priority ∈ s.priorityBands) → ∃ s', synchronizeFlows s comps = .ok s' := by
  induction comps with
  | nil => intro s _; exact ⟨s, rfl⟩
  | cons c comps ih =>
    intro s h
    obtain ⟨key, policy, q⟩ := c
    obtain ⟨s₁, hs⟩ := synchronizeFlow_total policy q (h _ mem_cons_self)
    unfold synchronizeFlows
    rw [hs]
    refine ih fun c hc => ?_
    rw [mem_bands_iff, (frame_synchronizeFlow hs).1, ← mem_bands_iff]
    exact h c (mem_cons_of_mem _ hc)

theorem Topology.scaleUp_total (h : r.Topology) (n : Nat) : ∃ r', r.executeScaleUpLocked n = .ok r' := by
  have hnd := h.fresh_nodup (n - r.activeShards.length)
  unfold executeScaleUpLocked
  cases hc : r.buildAllComponents with
  | none => exact ⟨r, rfl⟩
  | some comps =>
    obtain ⟨shards, hs⟩ : ∃ shards, forAll (List.range' r.nextShardID (n - r.activeShards.length))
        (fun _ s => synchronizeFlows s comps) (r.newShards n) = .ok shards :=
      forAll_total nodup_range' fun i hi => by
        apply synchronizeFlows_total
        intro c hmem
        rw [newShards, if_pos (getElem_mem hi),
          (newShard_carries h.keyed _).agrees.mem_iff]
        exact buildAllComponents_mem hc c hmem
    obtain ⟨hagree, -⟩ := h.newShards_agrees (loop_of_forAll nodup_range' hs)
    obtain ⟨r', hr⟩ := h.rescale_total shards (r.nextShardID + (n - r.activeShards.length)) hnd hagree
    simp only [hs]
    exact ⟨_, congrArg (Except.map updateAllShardsCacheLocked) hr⟩

theorem Topology.updateShardCount_total (h : r.Topology) (n : Int) : ∃ r', r.updateShardCount n = .ok r' := by
  unfold FlowRegistry.updateShardCount
  split_ifs
  · exact ⟨r, rfl⟩
  · exact ⟨r, rfl⟩
  · exact h.scaleUp_total _
  · have hnd := (r.drained_perm n.toNat).nodup_iff.2 h.nodup
    obtain ⟨r', hr⟩ := h.rescale_total (onShards (r.activeShards.drop n.toNat) .markAsDraining r.shards) r.nextShardID hnd
      fun id hid => agrees_onShards (f := .markAsDraining) (fun _ => rfl) (h.agrees (mem_of_mem_take hid))
    exact ⟨_, congrArg (Except.map updateAllShardsCacheLocked) hr⟩

end FlowRegistry

end InferenceGateway.Registry
