import InferenceGateway.Registry.FlowRegistry
/-!
# What a shard operation leaves alone

The frame of a shard says which bands it has, with their configuration and
policy. Everything that happens to queues leaves the frame as it is.
-/

namespace InferenceGateway.Registry

open Lib Queue Option AList

namespace RegistryShard

variable {α : Type} {s s' : RegistryShard α}

/-- The configuration and the policy of a band of the shard. -/
def frame (s : RegistryShard α) (p : Int) : Option (PriorityBandConfig α × FairnessPolicy) :=
  (s.priorityBands.lookup p).map fun band => (band.config, band.fairnessPolicy)

variable {p : Int}

theorem mem_bands_iff : p ∈ s.priorityBands ↔ (s.frame p).isSome := by
  rw [← lookup_isSome, frame, isSome_map]

/-- Replacing a band by one with the same configuration and policy. -/
theorem frame_insert {band band' : PriorityBand α} (hb : s.priorityBands.lookup p = some band)
    (hs : s'.priorityBands = s.priorityBands.insert p band') (hc : band'.config = band.config)
    (hf : band'.fairnessPolicy = band.fairnessPolicy) : s'.frame = s.frame := by
  funext q
  rw [frame, hs]
  by_cases hq : q = p
  · subst hq
    rw [lookup_insert, frame, hb]
    simp [hc, hf]
  · rw [lookup_insert_ne hq]; rfl

/-! ## Queues come and go -/

variable {key : FlowKey}

theorem frame_synchronizeFlow {policy : OrderingPolicy α} {q : SafeQueue α}
    (h : s.synchronizeFlow key policy q = .ok s') : s'.frame = s.frame ∧ s'.config = s.config := by
  unfold synchronizeFlow at h
  split at h
  · cases h
  · rename_i band hb
    split at h
    · cases h; exact ⟨rfl, rfl⟩
    · cases h; exact ⟨frame_insert hb rfl rfl rfl, rfl⟩

/-- It fails only when the band is missing. -/
theorem synchronizeFlow_total (policy : OrderingPolicy α) (q : SafeQueue α) (h : key.priority ∈ s.priorityBands) :
    ∃ s', s.synchronizeFlow key policy q = .ok s' := by
  obtain ⟨band, hl⟩ := Table.mem_iff_lookup.1 h
  unfold synchronizeFlow
  rw [hl]
  simp only
  split <;> exact ⟨_, rfl⟩

theorem frame_deleteFlow (s : RegistryShard α) (key : FlowKey) :
    (s.deleteFlow key).frame = s.frame ∧ (s.deleteFlow key).config = s.config := by
  unfold deleteFlow
  split
  · exact ⟨rfl, rfl⟩
  · rename_i band hb
    exact ⟨frame_insert hb rfl rfl rfl, rfl⟩

theorem frame_setQueue (s : RegistryShard α) (key : FlowKey) (mq : ManagedQueue α) :
    (s.setQueue key mq).frame = s.frame ∧ (s.setQueue key mq).config = s.config := by
  unfold setQueue
  split
  · exact ⟨rfl, rfl⟩
  · rename_i band hb
    exact ⟨frame_insert hb rfl rfl rfl, rfl⟩

theorem frame_propagateStatsDelta {d : StatsDelta} (h : s.propagateStatsDelta p d = .ok s') :
    s'.frame = s.frame ∧ s'.config = s.config := by
  unfold propagateStatsDelta at h
  split at h
  · cases h
  · rename_i band hb
    cases h
    exact ⟨frame_insert hb rfl rfl rfl, rfl⟩

theorem frame_propagate {d d' : Option StatsDelta} (h : s.propagate key d = .ok (s', d')) :
    s'.frame = s.frame ∧ s'.config = s.config ∧ d' = d := by
  cases d with
  | none => cases h; exact ⟨rfl, rfl, rfl⟩
  | some d =>
    obtain ⟨s₁, h1, h2⟩ := map_ok h
    rw [Prod.mk.injEq] at h2
    obtain ⟨rfl, rfl⟩ := h2
    exact ⟨(frame_propagateStatsDelta h1).1, (frame_propagateStatsDelta h1).2, rfl⟩

section Ops
variable [QueueItemAccessor α] [DecidableEq α]

theorem frame_queueOp {key : FlowKey} {op : QueueOp α} {d : Option StatsDelta} (h : s.queueOp key op = .ok (s', d)) :
    s'.frame = s.frame ∧ s'.config = s.config := by
  unfold queueOp at h
  split at h
  · cases h; exact ⟨rfl, rfl⟩
  · split at h
    · cases h
    · obtain ⟨h1, h2, -⟩ := frame_propagate h
      obtain ⟨h3, h4⟩ := s.frame_setQueue key ‹_›
      exact ⟨h1.trans h3, h2.trans h4⟩

theorem frame_detachedOp {i : Nat} {op : QueueOp α} {d : Option StatsDelta} (h : s.detachedOp i op = .ok (s', d)) :
    s'.frame = s.frame ∧ s'.config = s.config := by
  unfold detachedOp at h
  split at h
  · cases h; exact ⟨rfl, rfl⟩
  · split at h
    · cases h
    · obtain ⟨h1, h2, -⟩ := frame_propagate h
      exact ⟨h1, h2⟩

end Ops

theorem frame_synchronizeFlows {comps : List (FlowKey × OrderingPolicy α × SafeQueue α)} : ∀ {s s' : RegistryShard α},
    FlowRegistry.synchronizeFlows s comps = .ok s' → s'.frame = s.frame ∧ s'.config = s.config := by
  induction comps with
  | nil => intro s s' h; cases h; exact ⟨rfl, rfl⟩
  | cons c comps ih =>
    intro s s' h
    obtain ⟨key, policy, q⟩ := c
    unfold FlowRegistry.synchronizeFlows at h
    split at h
    · cases h
    · rename_i s₁ hs
      obtain ⟨h1, h2⟩ := frame_synchronizeFlow hs
      obtain ⟨h3, h4⟩ := ih h
      exact ⟨h3.trans h1, h4.trans h2⟩

/-! ## Bands come and go -/

theorem frame_initPriorityBand (s : RegistryShard α) (c : PriorityBandConfig α) (p : Int) :
    (s.initPriorityBand c).frame p = if p = c.priority then some (c, c.fairnessPolicy) else s.frame p := by
  by_cases hp : p = c.priority
  · subst hp; simp [initPriorityBand, frame]
  · simp [initPriorityBand, frame, hp]

theorem frame_deletePriorityBand (s : RegistryShard α) (q p : Int) :
    (s.deletePriorityBand q).frame p = if p = q then none else s.frame p := by
  by_cases hp : p = q
  · subst hp; simp [deletePriorityBand, frame]
  · simp [deletePriorityBand, frame, hp]

theorem frame_updateConfig {newConfig : ShardConfig α} (h : s.updateConfig newConfig = .ok s') (p : Int) :
    s'.config = newConfig ∧
      s'.frame p = (s.frame p).bind fun f => (newConfig.priorityBands.lookup p).map fun c => (c, f.2) := by
  unfold updateConfig at h
  split at h
  · rename_i hall
    cases h
    refine ⟨rfl, ?_⟩
    simp only [frame, Table.lookup_mapVals, map_map]
    cases hb : s.priorityBands.lookup p with
    | none => rfl
    | some band =>
      obtain ⟨c, hc⟩ := Table.mem_iff_lookup.1 (hall p (mem_keys.1 (Table.mem_of_lookup hb)))
      simp [hc]
  · cases h

theorem updateConfig_ok {newConfig : ShardConfig α} (h : ∀ p, p ∈ s.priorityBands → p ∈ newConfig.priorityBands) :
    ∃ s', s.updateConfig newConfig = .ok s' := by
  unfold updateConfig
  rw [if_pos fun p hp => h p (mem_keys.2 hp)]
  exact ⟨_, rfl⟩

theorem frame_addPriorityBand {q : Int} (h : s.addPriorityBand q = .ok s') (hno : (s.frame q).isNone) :
    ∃ c, s.config.priorityBands.lookup q = some c ∧ s'.config = s.config ∧
      ∀ p, s'.frame p = if p = c.priority then some (c, c.fairnessPolicy) else s.frame p := by
  unfold addPriorityBand at h
  rw [if_neg (by rw [mem_bands_iff]; simpa using hno)] at h
  split at h
  · cases h
  · rename_i c hc
    cases h
    exact ⟨c, hc, rfl, s.frame_initPriorityBand c⟩

/-- The frame built by a loop over band configurations. -/
theorem frame_foldl_init (cs : List (PriorityBandConfig α)) : ∀ (s : RegistryShard α) (p : Int),
    (cs.foldl initPriorityBand s).frame p =
      ((cs.reverse.find? fun c => c.priority == p).map fun c => (c, c.fairnessPolicy)).or (s.frame p) := by
  induction cs with
  | nil => intro s p; rfl
  | cons c cs ih =>
    intro s p
    rw [List.foldl_cons, ih, frame_initPriorityBand, List.reverse_cons, List.find?_append]
    cases cs.reverse.find? fun c => c.priority == p with
    | some d => rfl
    | none =>
      by_cases hp : p = c.priority
      · simp [hp]
      · simp [hp, Ne.symm hp]

theorem foldl_init_config (cs : List (PriorityBandConfig α)) : ∀ s : RegistryShard α,
    (cs.foldl initPriorityBand s).config = s.config := by
  induction cs with
  | nil => intro s; rfl
  | cons c cs ih => intro s; rw [List.foldl_cons, ih]; rfl

theorem newShard_config (id : Nat) (config : ShardConfig α) : (newShard id config).config = config :=
  foldl_init_config _ _

/-- A new shard has exactly the bands of its configuration. -/
theorem frame_newShard (id : Nat) {config : ShardConfig α} (hkey : ∀ e ∈ config.priorityBands.entries, e.2.priority = e.1)
    (p : Int) : (newShard id config).frame p = (config.priorityBands.lookup p).map fun c => (c, c.fairnessPolicy) := by
  rw [newShard, frame_foldl_init]
  have hbase : frame (⟨id, config, [], ∅, false, 0, 0, []⟩ : RegistryShard α) p = none := by simp [frame]
  rw [hbase, or_none]
  congr 1
  cases hl : config.priorityBands.lookup p with
  | some c =>
    have hmem := Table.lookup_mem_entries.2 hl
    cases hf : (config.priorityBands.entries.map (·.2)).reverse.find? fun c => c.priority == p with
    | none =>
      have hne := List.find?_eq_none.1 hf c (by simpa using ⟨p, hmem⟩)
      exact absurd (hkey _ hmem) (by simpa using hne)
    | some d =>
      have hd := List.mem_of_find?_eq_some hf
      have hp := List.find?_some hf
      simp only [List.mem_reverse, List.mem_map] at hd
      obtain ⟨e, he, rfl⟩ := hd
      simp only [hkey e he, beq_iff_eq] at hp
      have : (⟨p, e.2⟩ : Sigma fun _ : Int => PriorityBandConfig α) ∈ config.priorityBands.entries := hp ▸ he
      rw [Table.lookup_mem_entries, hl] at this
      exact this.symm
  | none =>
    rw [List.find?_eq_none]
    intro d hd
    simp only [List.mem_reverse, List.mem_map] at hd
    obtain ⟨e, he, rfl⟩ := hd
    rw [hkey e he, beq_iff_eq]
    rintro rfl
    have := Table.lookup_mem_entries.1 (show (⟨e.1, e.2⟩ : Sigma fun _ : Int => PriorityBandConfig α) ∈ _ from he)
    rw [hl] at this; cases this

/-! ## Shards in step with the configuration -/

/-- The shard is the `i`-th of `n` under the configuration: it has its share of the
limits, and exactly the bands of the configuration, with their policies and its
share of their limits. -/
structure Carries (s : RegistryShard α) (c : Config α) (i n : Nat) : Prop where
  totals : s.config.maxBytes = partitionUint64 c.maxBytes i n ∧
    s.config.maxRequests = partitionUint64 c.maxRequests i n
  bands : ∀ p, s.config.priorityBands.lookup p = (c.priorityBands.lookup p).map (·.partition i n) ∧
    s.frame p = (c.priorityBands.lookup p).map fun b => (b.partition i n, b.fairnessPolicy)

/-- The shard has exactly the bands of the configuration, with their policies. -/
def Agrees (s : RegistryShard α) (c : Config α) : Prop :=
  ∀ p, (s.frame p).map Prod.snd = (c.priorityBands.lookup p).map (·.fairnessPolicy)

variable {c : Config α} {i n : Nat}

theorem Carries.agrees (h : s.Carries c i n) : s.Agrees c := by
  intro p
  rw [(h.bands p).2, map_map]
  rfl

theorem Agrees.mem_iff (h : s.Agrees c) (p : Int) : p ∈ s.priorityBands ↔ p ∈ c.priorityBands := by
  rw [mem_bands_iff, ← lookup_isSome, ← isSome_map (f := Prod.snd), h p, isSome_map]

theorem Carries.of_frame (h : s.Carries c i n) (hs : s'.frame = s.frame ∧ s'.config = s.config) : s'.Carries c i n := by
  refine ⟨hs.2 ▸ h.totals, fun p => ?_⟩
  rw [hs.1, hs.2]
  exact h.bands p

theorem Agrees.of_frame (h : s.Agrees c) (hs : s'.frame = s.frame) : s'.Agrees c := by
  intro p
  rw [hs]
  exact h p

theorem Agrees.updateConfig (h : s.Agrees c) (hk : c.Keyed) (hu : s.updateConfig (c.partition i n) = .ok s') :
    s'.Carries c i n := by
  refine ⟨by rw [(frame_updateConfig hu 0).1]; exact ⟨rfl, rfl⟩, fun p => ?_⟩
  obtain ⟨hc, hf⟩ := frame_updateConfig hu p
  rw [hc, hf, hk.lookup_partition]
  refine ⟨rfl, ?_⟩
  have hp := h p
  cases hb : c.priorityBands.lookup p with
  | none =>
    rw [hb, map_none, map_eq_none_iff] at hp
    rw [hp]; rfl
  | some b =>
    rw [hb, map_some, map_eq_some_iff] at hp
    obtain ⟨f, hf, hf2⟩ := hp
    rw [hf]
    simp [hf2]

theorem newShard_carries (hk : c.Keyed) (id : Nat) : (newShard id (c.partition i n)).Carries c i n := by
  refine ⟨by rw [newShard_config]; exact ⟨rfl, rfl⟩, fun p => ?_⟩
  rw [newShard_config, frame_newShard id (hk.partition i n), hk.lookup_partition, map_map]
  exact ⟨rfl, rfl⟩

theorem Carries.deletePriorityBand (h : s.Carries c i n) (q : Int) :
    (s.deletePriorityBand q).Carries { c with priorityBands := c.priorityBands.erase q } i n := by
  refine ⟨h.totals, fun p => ?_⟩
  rw [frame_deletePriorityBand]
  by_cases hp : p = q
  · subst hp
    simp [RegistryShard.deletePriorityBand]
  · rw [if_neg hp, (h.bands p).2]
    simp only [RegistryShard.deletePriorityBand, lookup_erase_ne hp, (h.bands p).1, and_self]

theorem Agrees.deletePriorityBand (h : s.Agrees c) (q : Int) :
    (s.deletePriorityBand q).Agrees { c with priorityBands := c.priorityBands.erase q } := by
  intro p
  rw [frame_deletePriorityBand]
  by_cases hp : p = q
  · subst hp; simp
  · rw [if_neg hp, h p, lookup_erase_ne hp]

/-- A band that is new in the configuration reaches the shard in two steps. -/
theorem Carries.addPriorityBand (h : s.Carries c i n) (hp : p ∉ c.priorityBands) {b : PriorityBandConfig α}
    {c' : Config α} (hc : c'.priorityBands = c.priorityBands.insert p b) (hk : c'.Keyed) {s₁ : RegistryShard α}
    (hu : s.updateConfig (c'.partition i n) = .ok s₁) (ha : s₁.addPriorityBand p = .ok s') : s'.Carries c' i n := by
  have hlp : c'.priorityBands.lookup p = some b := by rw [hc, lookup_insert]
  have hnone : c.priorityBands.lookup p = none := lookup_eq_none.2 hp
  have hb : b.priority = p := hk _ (Table.lookup_mem_entries.2 hlp)
  have hframe : s₁.frame p = none := by rw [(frame_updateConfig hu p).2, (h.bands p).2, hnone]; rfl
  obtain ⟨d, hd, hcfg, hfr⟩ := frame_addPriorityBand ha (by rw [hframe]; rfl)
  rw [(frame_updateConfig hu p).1, hk.lookup_partition, hlp, map_some, some.injEq] at hd
  subst hd
  refine ⟨by rw [hcfg, (frame_updateConfig hu p).1]; exact ⟨rfl, rfl⟩, fun q => ?_⟩
  rw [hcfg, (frame_updateConfig hu q).1, hk.lookup_partition, hfr]
  refine ⟨rfl, ?_⟩
  by_cases hq : q = p
  · subst hq
    rw [hlp, if_pos (by simpa [PriorityBandConfig.partition] using hb.symm)]
    rfl
  · rw [if_neg (by simpa [PriorityBandConfig.partition, hb] using hq), (frame_updateConfig hu q).2, (h.bands q).2,
      hk.lookup_partition, hc, lookup_insert_ne hq]
    cases c.priorityBands.lookup q <;> rfl

end RegistryShard

end InferenceGateway.Registry
