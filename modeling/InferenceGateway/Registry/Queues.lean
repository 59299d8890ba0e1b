import InferenceGateway.Registry.Effects
/-!
# Which queues a shard has

What each operation on a shard, and each operation of the registry, does to the
managed queues: a flow's queue is added by `synchronizeFlow`, removed by `deleteFlow`
or with its band, and left alone by everything else.
-/

namespace InferenceGateway.Registry

open Lib Queue RegistryShard Option AList

variable {α : Type}

theorem FlowKey.eq_of {k k' : FlowKey} (hid : k.id = k'.id) (hp : k.priority = k'.priority) : k = k' := by
  cases k
  cases k'
  exact congrArg₂ FlowKey.mk hid hp

namespace RegistryShard

variable {s s' : RegistryShard α} {p : Int} {band band' : PriorityBand α}

variable {key : FlowKey}

/-- A queue is in a band. -/
theorem mem_bands_of_managedQueue {mq : ManagedQueue α} (h : s.managedQueue key = some mq) :
    key.priority ∈ s.priorityBands := by
  obtain ⟨band, hb, -⟩ := bind_eq_some_iff.1 h
  exact Table.mem_of_lookup hb

/-- The queues of the band as they are, its counters changed. -/
theorem managedQueue_insert (hb : s.priorityBands.lookup p = some band)
    (hs : s'.priorityBands = s.priorityBands.insert p band') (hq : band'.queues = band.queues) (key : FlowKey) :
    s'.managedQueue key = s.managedQueue key := by
  unfold managedQueue
  rw [hs]
  by_cases hp : key.priority = p
  · rw [hp, lookup_insert, hb, bind_some, bind_some, hq]
  · rw [lookup_insert_ne hp]

variable {newConfig : ShardConfig α}

theorem managedQueue_updateConfig (h : s.updateConfig newConfig = .ok s') (key : FlowKey) :
    s'.managedQueue key = s.managedQueue key := by
  unfold updateConfig at h
  split at h
  · cases h
    unfold managedQueue
    rw [Table.lookup_mapVals, bind_map]
    refine congrArg _ (funext fun band => ?_)
    simp only [Function.comp_apply]
    split <;> rfl
  · cases h

theorem managedQueue_initPriorityBand {c : PriorityBandConfig α} (hp : c.priority ∉ s.priorityBands) (key : FlowKey) :
    (s.initPriorityBand c).managedQueue key = s.managedQueue key := by
  unfold managedQueue initPriorityBand
  by_cases hq : key.priority = c.priority
  · rw [hq, lookup_insert, lookup_eq_none.2 hp]
    rfl
  · rw [lookup_insert_ne hq]

theorem managedQueue_addPriorityBand (hk : ∀ c, s.config.priorityBands.lookup p = some c → c.priority = p)
    (h : s.addPriorityBand p = .ok s') (key : FlowKey) : s'.managedQueue key = s.managedQueue key := by
  unfold addPriorityBand at h
  split at h
  · cases h; rfl
  · rename_i hp
    split at h
    · cases h
    · rename_i c hc
      cases h
      exact managedQueue_initPriorityBand (hk c hc ▸ hp) key

/-- The flow has its queue, or gets a new one. -/
theorem managedQueue_synchronizeFlow {policy : OrderingPolicy α} {q : SafeQueue α}
    (h : s.synchronizeFlow key policy q = .ok s') (k : FlowKey) : s'.managedQueue k =
      if k = key then some ((s.managedQueue key).getD (newManagedQueue q policy key)) else s.managedQueue k := by
  unfold synchronizeFlow at h
  split at h
  · cases h
  · rename_i band hb
    have hmq : s.managedQueue key = band.queues.lookup key.id := by rw [managedQueue, hb, bind_some]
    split at h
    · rename_i hmem
      cases h
      obtain ⟨mq, hq⟩ := Table.mem_iff_lookup.1 hmem
      split
      · subst k
        rw [hmq, hq, getD_some]
      · rfl
    · rename_i hnew
      cases h
      rw [hmq, lookup_eq_none.2 hnew, getD_none]
      unfold managedQueue
      split
      · subst k
        rw [lookup_insert, bind_some, lookup_insert]
      · rename_i hk
        by_cases hp : k.priority = key.priority
        · have hid : k.id ≠ key.id := fun hid => hk (FlowKey.eq_of hid hp)
          rw [hp, lookup_insert, hb, bind_some, bind_some, lookup_insert_ne hid]
        · rw [lookup_insert_ne hp]

theorem managedQueue_deleteFlow (s : RegistryShard α) (key k : FlowKey) :
    (s.deleteFlow key).managedQueue k = if k = key then none else s.managedQueue k := by
  unfold deleteFlow
  cases hb : s.priorityBands.lookup key.priority with
  | none =>
    by_cases hk : k = key
    · subst hk
      simp only [managedQueue, hb, bind_none, if_true]
    · rw [if_neg hk]
  | some band =>
    simp only [managedQueue]
    by_cases hk : k = key
    · subst hk
      rw [lookup_insert, bind_some, lookup_erase, if_pos rfl]
    · rw [if_neg hk]
      by_cases hp : k.priority = key.priority
      · have hid : k.id ≠ key.id := fun hid => hk (FlowKey.eq_of hid hp)
        rw [hp, lookup_insert, hb, bind_some, bind_some, lookup_erase_ne hid]
      · rw [lookup_insert_ne hp]

theorem managedQueue_deletePriorityBand (s : RegistryShard α) (p : Int) (k : FlowKey) :
    (s.deletePriorityBand p).managedQueue k = if k.priority = p then none else s.managedQueue k := by
  unfold managedQueue deletePriorityBand
  by_cases hp : k.priority = p
  · rw [if_pos hp, hp, lookup_erase, bind_none]
  · rw [if_neg hp, lookup_erase_ne hp]

/-- The requests in the queue of a flow. -/
def itemsOf (s : RegistryShard α) (key : FlowKey) : List α := ((s.managedQueue key).map ManagedQueue.items).getD []

theorem detached_updateConfig (h : s.updateConfig newConfig = .ok s') : s'.detached = s.detached := by
  unfold updateConfig at h
  split at h <;> cases h
  rfl

/-- A shard that has never had a queue. -/
def Bare (s : RegistryShard α) : Prop := (∀ key, s.managedQueue key = none) ∧ s.detached = []

theorem Bare.initPriorityBand (h : s.Bare) (c : PriorityBandConfig α) : (s.initPriorityBand c).Bare := by
  refine ⟨fun key => ?_, h.2⟩
  unfold managedQueue RegistryShard.initPriorityBand
  by_cases hq : key.priority = c.priority
  · rw [hq, lookup_insert]
    rfl
  · rw [lookup_insert_ne hq]
    exact h.1 key

theorem bare_newShard (id : Nat) (config : ShardConfig α) : (newShard id config).Bare := by
  have hfold : ∀ (cs : List (PriorityBandConfig α)) (s : RegistryShard α), s.Bare → (cs.foldl initPriorityBand s).Bare := by
    intro cs
    induction cs with
    | nil => exact fun _ h => h
    | cons c cs ih => exact fun s h => ih _ (h.initPriorityBand c)
  exact hfold _ _ ⟨fun _ => rfl, rfl⟩

theorem Bare.updateConfig (h : s.Bare) (hok : s.updateConfig newConfig = .ok s') : s'.Bare :=
  ⟨fun key => (managedQueue_updateConfig hok key).trans (h.1 key), (detached_updateConfig hok).trans h.2⟩

end RegistryShard

namespace FlowRegistry

variable {r r' : FlowRegistry α}

/-- A new band on the shards is empty. -/
theorem ensurePriorityBand_queues (hn : r.activeShards.Nodup) (hk : r.config.Keyed) {p : Int}
    (hp : p ∉ r.config.priorityBands) (h : r.ensurePriorityBand p = .ok r') (id : Nat) (key : FlowKey) :
    (r'.shards id).managedQueue key = (r.shards id).managedQueue key := by
  obtain ⟨shards₁, shards₂, rfl, hl₁, hl₂⟩ := ensurePriorityBand_ok hn hp h
  have hfirst := hl₁.each (P := fun s s' => s'.managedQueue key = s.managedQueue key) (fun _ => rfl)
    (fun _ _ _ hs => managedQueue_updateConfig hs key) id
  refine (hl₂.each (P := fun s s' => s'.managedQueue key = s.managedQueue key) (fun _ => rfl) ?_ id).trans hfirst
  intro id hid _ hs
  refine managedQueue_addPriorityBand (fun c hc => ?_) hs key
  obtain ⟨i, -, -, hu⟩ := hl₁.of_mem hid
  rw [(frame_updateConfig hu p).1, (withBand_keyed hk p).lookup_partition] at hc
  obtain ⟨c₀, hc₀, rfl⟩ := map_eq_some_iff.1 hc
  rw [withBand, lookup_insert, some.injEq] at hc₀
  subst hc₀
  rfl

/-- Every shard has the flow's queue afterwards, if there was no error, and what it had. -/
theorem synchronizeShards_queues (hn : r.allShards.Nodup) {key : FlowKey} {ok : Bool}
    (h : r.synchronizeShards key = .ok (r', ok)) :
    (∀ id k, ((r.shards id).managedQueue k).isSome → ((r'.shards id).managedQueue k).isSome) ∧
    (ok = true → ∀ id ∈ r.allShards, ((r'.shards id).managedQueue key).isSome) := by
  rcases synchronizeShards_ok hn h with ⟨rfl, rfl⟩ | ⟨policy, q, shards, rfl, -, rfl, hl⟩
  · exact ⟨fun _ _ h => h, nofun⟩
  · have hqueue : ∀ id ∈ r.allShards, ∀ k, (shards id).managedQueue k =
        if k = key then some (((r.shards id).managedQueue key).getD (newManagedQueue q policy key))
        else (r.shards id).managedQueue k := by
      intro id hid k
      obtain ⟨-, -, -, hs⟩ := hl.of_mem hid
      exact managedQueue_synchronizeFlow hs k
    refine ⟨fun id k hk => ?_, fun _ id hid => ?_⟩
    · refine hl.each (P := fun s s' => (s.managedQueue k).isSome → (s'.managedQueue k).isSome) (fun _ h => h)
        (fun id hid _ _ hk => ?_) id hk
      rw [hqueue id hid k]
      split
      · rfl
      · exact hk
    · show ((shards id).managedQueue key).isSome
      rw [hqueue id hid key, if_pos rfl]
      rfl

/-- A new registry has no flows, no leases, no queues and no draining shards. -/
theorem newFlowRegistry_bare {config : Config α} {now : Int} (h : newFlowRegistry config now = .ok r) :
    r.drainingShards = [] ∧ r.flowStates = ∅ ∧ r.priorityBandStates = ∅ ∧ ∀ id, (r.shards id).Bare := by
  have hempty : ∀ id, ((emptyRegistry config now).shards id).Bare := fun id => bare_newShard id _
  unfold newFlowRegistry updateShardCount at h
  split_ifs at h with h₁ h₂ h₃
  · cases h; exact ⟨rfl, rfl, rfl, hempty⟩
  · cases h; exact ⟨rfl, rfl, rfl, hempty⟩
  · have hn : (List.range' 0 (config.initialShardCount.toNat - 0)).Nodup := List.nodup_range'
    rcases scaleUp_ok (r := emptyRegistry config now) hn h with rfl | ⟨comps, shards₁, r₁, hc, hl₁, hr₁, rfl⟩
    · exact ⟨rfl, rfl, rfl, hempty⟩
    · obtain ⟨shards, rfl, hl₂⟩ := repartition_ok hn hr₁
      -- there are no flows to synchronize
      cases hc
      have hbare₁ : ∀ id, (shards₁ id).Bare := by
        intro id
        have hnew : ((emptyRegistry config now).newShards config.initialShardCount.toNat id).Bare := by
          unfold newShards
          split
          · exact bare_newShard ..
          · exact hempty id
        exact hl₁.each (P := fun s s' => s.Bare → s'.Bare) (fun _ h => h) (fun _ _ _ hs h => Except.ok.inj hs ▸ h) id hnew
      refine ⟨rfl, rfl, rfl, fun id => ?_⟩
      exact hl₂.each (P := fun s s' => s.Bare → s'.Bare) (fun _ h => h) (fun _ _ _ hs h => h.updateConfig hs) id (hbare₁ id)
  · simp only [emptyRegistry, List.length_nil] at h₃
    omega

end FlowRegistry

end InferenceGateway.Registry
