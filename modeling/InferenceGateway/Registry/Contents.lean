import InferenceGateway.Registry.Queues
import InferenceGateway.Registry.Totals
/-!
# The requests in the queues

What the operations do to the requests a shard holds for a flow. A connection adds
no requests; an operation on a queue changes that queue alone.
-/

namespace InferenceGateway.Registry

open Lib Queue List Function FlowRegistry ManagedQueue RegistryShard

variable {α : Type}

namespace RegistryShard

variable {s s' : RegistryShard α}

theorem detached_addPriorityBand {p : Int} (h : s.addPriorityBand p = .ok s') : s'.detached = s.detached := by
  unfold addPriorityBand at h
  split at h
  · cases h; rfl
  · split at h <;> cases h
    rfl

variable {key : FlowKey}

theorem detached_synchronizeFlow {policy : OrderingPolicy α} {q : SafeQueue α}
    (h : s.synchronizeFlow key policy q = .ok s') : s'.detached = s.detached := by
  unfold synchronizeFlow at h
  split at h
  · cases h
  · split at h <;> cases h <;> rfl

/-- A flow's new queue is empty. -/
theorem itemsOf_synchronizeFlow {policy : OrderingPolicy α} {q : SafeQueue α} (hq : q.items = [])
    (h : s.synchronizeFlow key policy q = .ok s') (k : FlowKey) : s'.itemsOf k = s.itemsOf k := by
  unfold itemsOf
  rw [managedQueue_synchronizeFlow h]
  split
  · subst k
    cases s.managedQueue key with
    | none => exact hq
    | some mq => rfl
  · rfl

theorem managedQueue_setQueue {mq₀ : ManagedQueue α} (h : s.managedQueue key = some mq₀) (mq : ManagedQueue α)
    (k : FlowKey) : (s.setQueue key mq).managedQueue k = if k = key then some mq else s.managedQueue k := by
  obtain ⟨band, hb, -⟩ := Option.bind_eq_some_iff.1 h
  unfold setQueue
  simp only [hb, managedQueue]
  by_cases hk : k = key
  · subst hk
    rw [if_pos rfl, AList.lookup_insert, Option.bind_some, AList.lookup_insert]
  · rw [if_neg hk]
    by_cases hp : k.priority = key.priority
    · have hid : k.id ≠ key.id := fun hid => hk (FlowKey.eq_of hid hp)
      rw [hp, AList.lookup_insert, hb, Option.bind_some, Option.bind_some, AList.lookup_insert_ne hid]
    · rw [AList.lookup_insert_ne hp]

theorem queues_propagate {d d' : Option StatsDelta} (h : s.propagate key d = .ok (s', d')) :
    (∀ k, s'.managedQueue k = s.managedQueue k) ∧ s'.detached = s.detached := by
  cases d with
  | none => cases h; exact ⟨fun _ => rfl, rfl⟩
  | some d =>
    obtain ⟨s₁, h1, h2⟩ := map_ok h
    rw [Prod.mk.injEq] at h2
    obtain ⟨rfl, -⟩ := h2
    unfold propagateStatsDelta at h1
    split at h1
    · cases h1
    · rename_i band hb
      cases h1
      exact ⟨managedQueue_insert hb rfl rfl, rfl⟩

section Ops
variable [QueueItemAccessor α] [DecidableEq α]

/-- An operation on a queue changes that queue alone. -/
theorem queueOp_queues {key : FlowKey} {op : QueueOp α} {d : Option StatsDelta} (h : s.queueOp key op = .ok (s', d)) :
    s'.detached = s.detached ∧ (∀ k, k ≠ key → s'.managedQueue k = s.managedQueue k) ∧
      ((s.managedQueue key = none ∧ s'.managedQueue key = none) ∨
        ∃ mq mq', s.managedQueue key = some mq ∧ mq.perform s.isDraining op = .ok (mq', d) ∧ s'.managedQueue key = some mq') := by
  unfold queueOp at h
  split at h
  · rename_i hn
    cases h
    exact ⟨rfl, fun _ _ => rfl, .inl ⟨hn, hn⟩⟩
  · rename_i mq hmq
    split at h
    · cases h
    · rename_i mq' d' hperf
      have hd : d = d' := (frame_propagate h).2.2
      subst hd
      obtain ⟨hq, hdet⟩ := queues_propagate h
      have hset := managedQueue_setQueue hmq mq'
      refine ⟨hdet.trans ?_, fun k hk => ?_, .inr ⟨mq, mq', hmq, hperf, ?_⟩⟩
      · unfold setQueue
        split <;> rfl
      · rw [hq k, hset k, if_neg hk]
      · rw [hq key, hset key, if_pos rfl]

end Ops

end RegistryShard

namespace FlowRegistry

variable {r r' : FlowRegistry α}

/-- The shards hold the same requests, and have no more queues deleted. -/
structure Alike (r r' : FlowRegistry α) : Prop where
  draining : r'.drainingShards = r.drainingShards
  all : r'.allShards = r.allShards
  items : ∀ id key, (r'.shards id).itemsOf key = (r.shards id).itemsOf key
  detached : ∀ id, (r'.shards id).detached = (r.shards id).detached
  queues : ∀ id key, ((r.shards id).managedQueue key).isSome → ((r'.shards id).managedQueue key).isSome

theorem Alike.refl (r : FlowRegistry α) : r.Alike r := ⟨rfl, rfl, fun _ _ => rfl, fun _ => rfl, fun _ _ h => h⟩

theorem Alike.trans {r'' : FlowRegistry α} (h : r.Alike r') (h' : r'.Alike r'') : r.Alike r'' where
  draining := h'.draining.trans h.draining
  all := h'.all.trans h.all
  items := fun id key => (h'.items id key).trans (h.items id key)
  detached := fun id => (h'.detached id).trans (h.detached id)
  queues := fun id key hq => h'.queues id key (h.queues id key hq)

theorem ensurePriorityBand_alike (hn : r.activeShards.Nodup) (hk : r.config.Keyed) {p : Int} (hp : p ∉ r.config.priorityBands)
    (h : r.ensurePriorityBand p = .ok r') : r.Alike r' := by
  have hq := ensurePriorityBand_queues hn hk hp h
  obtain ⟨shards₁, shards₂, rfl, hl₁, hl₂⟩ := ensurePriorityBand_ok hn hp h
  refine ⟨rfl, rfl, fun id key => ?_, fun id => ?_, fun id key hsome => (hq id key).symm ▸ hsome⟩
  · unfold itemsOf
    rw [hq id key]
  · refine (hl₂.each (P := fun s s' => s'.detached = s.detached) (fun _ => rfl) ?_ id).trans
      (hl₁.each (P := fun s s' => s'.detached = s.detached) (fun _ => rfl) ?_ id)
    · exact fun _ _ _ => detached_addPriorityBand
    · exact fun _ _ _ => detached_updateConfig

variable [QueueItemAccessor α]

variable {key : FlowKey}

theorem synchronizeShards_alike (hn : r.allShards.Nodup) {ok : Bool} (h : r.synchronizeShards key = .ok (r', ok)) :
    r.Alike r' := by
  rcases synchronizeShards_ok hn h with ⟨-, rfl⟩ | ⟨policy, q, shards, -, hc, rfl, hl⟩
  · exact .refl _
  · have hq : q.items = [] := (buildFlowComponents_ok hc).2
    refine ⟨rfl, rfl, fun id k => ?_, fun id => ?_, fun id k hsome => ?_⟩
    · exact hl.each (P := fun s s' => s'.itemsOf k = s.itemsOf k) (fun _ => rfl)
        (fun _ _ _ hs => itemsOf_synchronizeFlow hq hs k) id
    · exact hl.each (P := fun s s' => s'.detached = s.detached) (fun _ => rfl)
        (fun _ _ _ hs => detached_synchronizeFlow hs) id
    · exact (synchronizeShards_queues hn h).1 id k hsome

theorem connect_alike (ht : r.Topology) (h : r.connect key = .ok r') : r.Alike r' := by
  refine And.right <| connect_induction (fun x => x.Topology ∧ r.Alike x) ⟨ht, .refl r⟩ And.left ?_ ?_ ?_ h
  · rintro x flows bands ⟨ht, ha⟩ hf hb
    exact ⟨{ ht with flows := hf, leases := hb }, { ha with }⟩
  · rintro x x' ⟨ht, ha⟩ hc - - hp he
    exact ⟨(ht.ensurePriorityBand he).1, ha.trans (ensurePriorityBand_alike ht.nodup_active ht.keyed (hc ▸ hp) he)⟩
  · rintro x x' ok ⟨ht, ha⟩ hs
    exact ⟨(ht.synchronizeShards hs).1, ha.trans (synchronizeShards_alike ht.nodup_all hs)⟩

end FlowRegistry

end InferenceGateway.Registry
