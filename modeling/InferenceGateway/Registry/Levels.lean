import InferenceGateway.Registry.Administration
/-!
# The priority levels of a shard

A shard keeps its bands in a map and their priorities in a slice, sorted from the
highest down. Bands are added to both and deleted from both, and whatever else happens
to the shard leaves them alone. A new configuration has every band of the shard; the one
band that it has and the shard has not is the one that is being provisioned.
-/

namespace InferenceGateway.Registry

open Lib Queue FlowRegistry List

variable {α : Type}

namespace RegistryShard

variable {s s' : RegistryShard α}

/-- The levels are the priorities of the bands, from the highest down. -/
structure Levelled (s : RegistryShard α) : Prop where
  keyed : s.config.Keyed
  sorted : s.orderedPriorityLevels.Pairwise (· > ·)
  mem_iff : ∀ p, p ∈ s.orderedPriorityLevels ↔ p ∈ s.priorityBands

theorem Levelled.of_same (h : s.Levelled) (hc : s'.config = s.config) (hl : s'.orderedPriorityLevels = s.orderedPriorityLevels)
    (hb : s'.frame = s.frame) : s'.Levelled where
  keyed := hc ▸ h.keyed
  sorted := hl ▸ h.sorted
  mem_iff p := by rw [hl, h.mem_iff, mem_bands_iff, mem_bands_iff, hb]

/-! ## Levels that stay -/

variable {key : FlowKey}

theorem levels_synchronizeFlow {policy : OrderingPolicy α} {q : SafeQueue α}
    (h : s.synchronizeFlow key policy q = .ok s') : s'.orderedPriorityLevels = s.orderedPriorityLevels := by
  unfold synchronizeFlow at h
  split at h
  · cases h
  · split at h <;> (cases h; rfl)

theorem levels_deleteFlow (s : RegistryShard α) (key : FlowKey) :
    (s.deleteFlow key).orderedPriorityLevels = s.orderedPriorityLevels := by
  unfold deleteFlow
  split <;> rfl

theorem levels_setQueue (s : RegistryShard α) (key : FlowKey) (mq : ManagedQueue α) :
    (s.setQueue key mq).orderedPriorityLevels = s.orderedPriorityLevels := by
  unfold setQueue
  split <;> rfl

variable {d : Option StatsDelta}

theorem levels_propagate {d' : Option StatsDelta} (h : s.propagate key d = .ok (s', d')) :
    s'.orderedPriorityLevels = s.orderedPriorityLevels := by
  cases d with
  | none => cases h; rfl
  | some d =>
    obtain ⟨s₁, h₁, he⟩ := map_ok h
    cases he
    unfold propagateStatsDelta at h₁
    split at h₁
    · cases h₁
    · cases h₁; rfl

theorem levels_queueOp [QueueItemAccessor α] [DecidableEq α] {op : QueueOp α} (h : s.queueOp key op = .ok (s', d)) :
    s'.orderedPriorityLevels = s.orderedPriorityLevels := by
  unfold queueOp at h
  split at h
  · cases h; rfl
  · split at h
    · cases h
    · exact (levels_propagate h).trans (s.levels_setQueue key _)

theorem levels_detachedOp [QueueItemAccessor α] [DecidableEq α] {i : Nat} {op : QueueOp α}
    (h : s.detachedOp i op = .ok (s', d)) : s'.orderedPriorityLevels = s.orderedPriorityLevels := by
  unfold detachedOp at h
  split at h
  · cases h; rfl
  · split at h
    · cases h
    · have hsame := levels_propagate h
      exact hsame

theorem levels_updateConfig {newConfig : ShardConfig α} (h : s.updateConfig newConfig = .ok s') :
    s'.orderedPriorityLevels = s.orderedPriorityLevels ∧ ∀ p, p ∈ s'.priorityBands ↔ p ∈ s.priorityBands := by
  unfold updateConfig at h
  split at h
  · cases h
    exact ⟨rfl, fun p => Table.mem_mapVals⟩
  · cases h

/-! ## Bands that come and go -/

theorem Levelled.initPriorityBand (h : s.Levelled) {c : PriorityBandConfig α} (hnew : c.priority ∉ s.priorityBands) :
    (s.initPriorityBand c).Levelled := by
  have hperm : (s.initPriorityBand c).orderedPriorityLevels.Perm (s.orderedPriorityLevels ++ [c.priority]) :=
    perm_insertionSort _ _
  have hnodup : (s.initPriorityBand c).orderedPriorityLevels.Nodup := by
    rw [hperm.nodup_iff, nodup_append]
    refine ⟨h.sorted.imp fun hgt => ne_of_gt hgt, nodup_singleton _, fun p hp q hq => ?_⟩
    rw [mem_singleton.1 hq]
    rintro rfl
    exact hnew ((h.mem_iff _).1 hp)
  refine ⟨h.keyed, ?_, fun p => ?_⟩
  · -- sorted by `≥`, and no two are the same
    have hge : (s.initPriorityBand c).orderedPriorityLevels.Pairwise (fun p q : Int => q ≤ p) :=
      pairwise_insertionSort _ _
    exact (hge.and hnodup).imp fun hpq => lt_of_le_of_ne hpq.1 hpq.2.symm
  · rw [hperm.mem_iff, mem_append, mem_singleton, h.mem_iff]
    show _ ↔ p ∈ s.priorityBands.insert c.priority _
    rw [AList.mem_insert, or_comm]

theorem Levelled.addPriorityBand (h : s.Levelled) {p : Int} (hok : s.addPriorityBand p = .ok s') : s'.Levelled := by
  unfold RegistryShard.addPriorityBand at hok
  split at hok
  · cases hok; exact h
  · rename_i hno
    split at hok
    · cases hok
    · rename_i c hc
      cases hok
      exact h.initPriorityBand (by rwa [h.keyed p c hc])

theorem Levelled.deletePriorityBand (h : s.Levelled) (p : Int) : (s.deletePriorityBand p).Levelled where
  keyed q c hc := by
    refine h.keyed q c ?_
    have hc' : (s.config.priorityBands.erase p).lookup q = some c := hc
    rw [Table.lookup_erase_ite] at hc'
    split at hc'
    · cases hc'
    · exact hc'
  sorted := h.sorted.sublist erase_sublist
  mem_iff q := by
    have hnodup : s.orderedPriorityLevels.Nodup := h.sorted.imp fun hgt => ne_of_gt hgt
    show q ∈ s.orderedPriorityLevels.erase p ↔ q ∈ s.priorityBands.erase p
    rw [hnodup.mem_erase_iff, AList.mem_erase, h.mem_iff]

theorem levelled_foldl (cs : List (PriorityBandConfig α)) : ∀ {s : RegistryShard α}, s.Levelled →
    (cs.map (·.priority)).Nodup → (∀ c ∈ cs, c.priority ∉ s.priorityBands) → (cs.foldl initPriorityBand s).Levelled := by
  induction cs with
  | nil => intro s h _ _; exact h
  | cons c cs ih =>
    intro s h hnodup hnew
    rw [map_cons, nodup_cons] at hnodup
    refine ih (h.initPriorityBand (hnew c mem_cons_self)) hnodup.2 fun c' hc' hmem => ?_
    rcases AList.mem_insert _ |>.1 (show c'.priority ∈ s.priorityBands.insert c.priority _ from hmem) with heq | hmem
    · exact hnodup.1 (heq ▸ mem_map_of_mem hc')
    · exact hnew c' (mem_cons_of_mem _ hc') hmem

theorem levelled_newShard (id : Nat) {config : ShardConfig α} (hk : config.Keyed) : (newShard id config).Levelled := by
  have hprios : (config.priorityBands.entries.map (·.2)).map (·.priority) = config.priorityBands.keys := by
    rw [map_map]
    refine map_congr_left fun e he => ?_
    exact hk e.1 e.2 (Table.lookup_mem_entries.1 he)
  refine levelled_foldl _ ⟨hk, .nil, fun p => ?_⟩ ?_ fun c _ => AList.notMem_empty _
  · simp
  · rw [hprios]
    exact config.priorityBands.keys_nodup

end RegistryShard

/-! ## Every step, and every run -/

variable [QueueItemAccessor α] [DecidableEq α]

theorem RegistryShard.Levelled.step {s s' : RegistryShard α} (h : s.Levelled) (hstep : ShardStep s s') : s'.Levelled := by
  cases hstep with
  | synchronizeFlow key policy q _ hok =>
    exact h.of_same (frame_synchronizeFlow hok).2 (levels_synchronizeFlow hok) (frame_synchronizeFlow hok).1
  | deleteFlow key => exact h.of_same (s.frame_deleteFlow key).2 (s.levels_deleteFlow key) (s.frame_deleteFlow key).1
  | queueOp key op _ d hok => exact h.of_same (frame_queueOp hok).2 (levels_queueOp hok) (frame_queueOp hok).1
  | detachedOp i op _ d hok => exact h.of_same (frame_detachedOp hok).2 (levels_detachedOp hok) (frame_detachedOp hok).1
  | updateConfig newConfig _ hk hok =>
    obtain ⟨hlevels, hmem⟩ := levels_updateConfig hok
    exact ⟨(frame_updateConfig hok 0).1 ▸ hk, hlevels ▸ h.sorted, fun p => by rw [hlevels, h.mem_iff, hmem]⟩
  | addPriorityBand p _ hok => exact h.addPriorityBand hok
  | deletePriorityBand p => exact h.deletePriorityBand p
  | markAsDraining => exact h.of_same rfl rfl rfl

theorem RegistryShard.Levelled.steps {s s' : RegistryShard α} (h : s.Levelled) (hsteps : ShardSteps s s') : s'.Levelled := by
  induction hsteps with
  | refl => exact h
  | tail _ hstep ih => exact ih.step hstep

namespace FlowRegistry

variable {r r' : FlowRegistry α}

variable {op : AdminOp α}

/-- Whatever an operation does, every shard keeps its levels in order. -/
theorem Topology.levelled (ht : r.Topology) (h : ∀ id, (r.shards id).Levelled) (hok : r.administer op = .ok r')
    (id : Nat) : (r'.shards id).Levelled := by
  rcases ht.administer_moves hok with hm | ⟨n, -, hn⟩
  · exact (h id).steps (hm.shards id)
  · rcases hn.shards id with hold | ⟨i, m, hnew⟩
    · exact (h id).steps hold
    · exact (RegistryShard.levelled_newShard id (ht.keyed.shardConfig i m)).steps hnew

/-! ## Updates of the configuration -/

/-- The operation updates the configurations of the active shards of this registry. -/
inductive Repartitions (fr : FlowRegistry α) : AdminOp α → FlowRegistry α → Prop where
  | scaleUp (n : Nat) (comps : List (FlowKey × OrderingPolicy α × SafeQueue α)) (shards : Nat → RegistryShard α)
      (hn : fr.activeShards.length < n) (hc : fr.buildAllComponents = some comps)
      (hs : forAll (range' fr.nextShardID (n - fr.activeShards.length)) (fun _ s => synchronizeFlows s comps)
        (fr.newShards n) = .ok shards) :
      Repartitions fr (.registry (.scale n)) { fr with
        shards := shards
        activeShards := fr.activeShards ++ range' fr.nextShardID (n - fr.activeShards.length)
        nextShardID := fr.nextShardID + (n - fr.activeShards.length) }
  | scaleDown (n : Nat) (hpos : 0 < n) (hn : n < fr.activeShards.length) :
      Repartitions fr (.registry (.scale n)) { fr with
        activeShards := fr.activeShards.take n
        drainingShards := fr.drainingShards ++ fr.activeShards.drop n
        shards := onShards (fr.activeShards.drop n) .markAsDraining fr.shards }
  | ensurePriorityBand (p : Int) (hp : p ∉ fr.config.priorityBands) :
      Repartitions fr (.ensurePriorityBand p) (fr.withBand p)
  | connect (key : FlowKey) (flowStates : Table FlowKey LeasedState) (bandStates : Table Int LeasedState) (isNewBand : Bool)
      (hid : key.id ≠ "") (hf : pinLeasedResource fr.flowStates key = some (flowStates, true))
      (hb : pinLeasedResource fr.priorityBandStates key.priority = some (bandStates, isNewBand))
      (hp : key.priority ∉ fr.config.priorityBands) :
      Repartitions fr (.registry (.connect key))
        ({ fr with flowStates := flowStates, priorityBandStates := bandStates }.withBand key.priority)

variable {e : Fault}

omit [QueueItemAccessor α] [DecidableEq α] in
/-- A shard has no band that its new configuration lacks; and it has every band of the new configuration but,
at most, the one that comes with the operation. -/
theorem Topology.repartitions (h : r.Topology) {r₁ : FlowRegistry α} (hr : r.Repartitions op r₁) {id : Nat}
    (hid : id ∈ r₁.activeShards) (p : Int) : (p ∈ (r₁.shards id).priorityBands → p ∈ r₁.config.priorityBands) ∧
      (p ∈ r₁.config.priorityBands → p ∈ (r₁.shards id).priorityBands ∨ p ∉ r.config.priorityBands) := by
  have hboth : ∀ {s : RegistryShard α}, s.Agrees r.config → (p ∈ s.priorityBands → p ∈ r.config.priorityBands) ∧
      (p ∈ r.config.priorityBands → p ∈ s.priorityBands ∨ p ∉ r.config.priorityBands) := fun hs =>
    ⟨(hs.mem_iff p).1, fun hp => .inl ((hs.mem_iff p).2 hp)⟩
  have hnewBand : ∀ q, id ∈ r.activeShards → (p ∈ (r.shards id).priorityBands → p = q ∨ p ∈ r.config.priorityBands) ∧
      (p = q ∨ p ∈ r.config.priorityBands → p ∈ (r.shards id).priorityBands ∨ p ∉ r.config.priorityBands) := by
    intro q hid
    have hmem := (h.agrees hid).mem_iff p
    tauto
  cases hr with
  | scaleUp n comps shards hn hc hs => exact hboth ((h.newShards_agrees (loop_of_forAll nodup_range' hs)).1 id hid)
  | scaleDown n hpos hn =>
    exact hboth (agrees_onShards (f := .markAsDraining) (fun _ => rfl) (h.agrees (mem_of_mem_take hid)))
  | ensurePriorityBand q hq =>
    simp only [withBand, AList.mem_insert]
    exact hnewBand q hid
  | connect key flowStates bandStates isNewBand hkey hf hb hq =>
    simp only [withBand, AList.mem_insert]
    exact hnewBand key.priority hid

/-! ## No band is missing in a configuration -/

variable {key : FlowKey}

omit [QueueItemAccessor α] [DecidableEq α] in
theorem synchronizeShards_error (hn : r.allShards.Nodup) (h : r.synchronizeShards key = .error e) :
    e = .missingBand := by
  unfold synchronizeShards at h
  split at h
  · cases h
  · rename_i policy q hc
    cases hf : forAll r.allShards (fun _ s => s.synchronizeFlow key policy q) r.shards with
    | ok shards => rw [hf] at h; cases h
    | error e' =>
      rw [hf] at h
      cases h
      obtain ⟨i, hi, hs⟩ := forAll_error hn hf
      unfold RegistryShard.synchronizeFlow at hs
      split at hs
      · cases hs; rfl
      · split at hs <;> cases hs

omit [QueueItemAccessor α] [DecidableEq α] in
theorem Topology.ensureFlowInfrastructure_error (h : r.Topology) (herr : r.ensureFlowInfrastructure key = .error e) :
    e = .missingBand := by
  unfold FlowRegistry.ensureFlowInfrastructure at herr
  split at herr
  · exact synchronizeShards_error h.nodup_all herr
  · obtain ⟨r₁, he⟩ := ensurePriorityBand_total h.nodup_active h.keyed
      (fun id hid p hb => ((h.agrees hid).mem_iff p).1 hb) key.priority
    rw [he] at herr
    exact synchronizeShards_error (h.ensurePriorityBand he).1.nodup_all herr

omit [QueueItemAccessor α] [DecidableEq α] in
theorem Topology.connect_error (h : r.Topology) (herr : r.connect key = .error e) : e ≠ .missingConfig := by
  unfold FlowRegistry.connect at herr
  split at herr
  · cases herr
  · obtain ⟨states, isNew, hpin, hun, -⟩ := h.flows.pin key
    rw [hpin] at herr
    simp only at herr
    split at herr
    · obtain ⟨bands, isNew', hpin', hun', -⟩ := h.leases.pin key.priority
      have hp : { r with flowStates := states, priorityBandStates := bands }.Topology :=
        { h with flows := hun, leases := hun' }
      unfold FlowRegistry.provision at herr
      rw [hpin'] at herr
      simp only at herr
      split at herr
      · rename_i e' he
        cases herr
        rw [hp.ensureFlowInfrastructure_error he]
        nofun
      · cases herr
      · cases herr
    · cases herr

omit [QueueItemAccessor α] [DecidableEq α] in
theorem finishOp_error {id : Nat} {p : Int} {res : RegistryShard α × Option StatsDelta}
    (h : r.finishOp id p res = .error e) : e ≠ .missingConfig := by
  obtain ⟨s, d⟩ := res
  cases d with
  | none => cases h
  | some d =>
    simp only [finishOp, propagateStatsDelta] at h
    split at h
    · cases h; simp
    · cases h

omit [QueueItemAccessor α] [DecidableEq α] in
theorem propagate_error {s : RegistryShard α} {d : Option StatsDelta} (h : s.propagate key d = .error e) :
    e ≠ .missingConfig := by
  cases d with
  | none => cases h
  | some d =>
    simp only [RegistryShard.propagate, RegistryShard.propagateStatsDelta] at h
    cases hb : s.priorityBands.lookup key.priority with
    | none => rw [hb] at h; cases h; simp
    | some band => rw [hb] at h; cases h

/-- No operation comes upon a band without a configuration. -/
theorem Topology.administer_error (h : r.Topology) (herr : r.administer op = .error e) : e ≠ .missingConfig := by
  cases op with
  | registry op =>
    cases op with
    | connect key => exact h.connect_error herr
    | scale n =>
      obtain ⟨r', hr'⟩ := h.updateShardCount_total n
      rw [FlowRegistry.administer, FlowRegistry.step, hr'] at herr
      cases herr
    | queue id key op =>
      simp only [FlowRegistry.administer, FlowRegistry.step, FlowRegistry.queueOp] at herr
      split at herr
      · rename_i e' hop
        cases herr
        unfold RegistryShard.queueOp at hop
        split at hop
        · cases hop
        · split at hop
          · rename_i hperf
            cases hop
            rw [ManagedQueue.perform_error hperf]
            simp
          · exact propagate_error hop
      · exact finishOp_error herr
    | detached id i op =>
      simp only [FlowRegistry.administer, FlowRegistry.step, FlowRegistry.detachedOp] at herr
      split at herr
      · cases herr
      · split at herr
        · rename_i mq hmq _ e' hop
          cases herr
          unfold RegistryShard.detachedOp at hop
          split at hop
          · cases hop
          · split at hop
            · rename_i hperf
              cases hop
              rw [ManagedQueue.perform_error hperf]
              simp
            · exact propagate_error hop
        · exact finishOp_error herr
    | _ => cases herr
  | ensurePriorityBand p =>
    obtain ⟨r', hr'⟩ := ensurePriorityBand_total h.nodup_active h.keyed
      (fun id hid p hb => ((h.agrees hid).mem_iff p).1 hb) p
    rw [FlowRegistry.administer, hr'] at herr
    cases herr
  | cleanupPriorityBandResources ps | deletePriorityBand p => cases herr

end FlowRegistry

/-- What is kept holds in every run. -/
theorem runs_levelled (cfg : ValidConfig α) (now : Int) {r₀ r : FlowRegistry α}
    (h₀ : newFlowRegistry cfg.toConfig now = .ok r₀) (hrun : Runs administer (fun _ _ => True) r₀ r) :
    r.Topology ∧ ∀ id, (r.shards id).Levelled := by
  have hempty : ∀ id, ((emptyRegistry cfg.toConfig now).shards id).Levelled := fun id =>
    RegistryShard.levelled_newShard id fun p b hb => by cases hb
  have hstart : r₀.Topology ∧ ∀ id, (r₀.shards id).Levelled := by
    have ht := emptyRegistry_topology cfg now
    refine ⟨(newFlowRegistry_topology cfg now h₀).1, fun id => ?_⟩
    have hscale : (emptyRegistry cfg.toConfig now).administer (.registry (.scale cfg.initialShardCount)) = .ok r₀ :=
      h₀
    exact ht.levelled hempty hscale id
  exact Runs.invariant (fun r => r.Topology ∧ ∀ id, (r.shards id).Levelled)
    (fun s op s' hs _ hok => ⟨hs.1.administer hok, hs.1.levelled hs.2 hok⟩) hstart hrun

/-- In every run: the levels of every shard are strictly descending, and they are the keys of its bands; on an
active shard they are the bands of the configuration. An update of the configuration meets no band of a shard that
the new configuration lacks, so that no operation stops for want of one, and the bands of the new configuration that
the shard lacks are new to the registry. -/
theorem levels_agree (cfg : ValidConfig α) (now : Int) (r₀ r : FlowRegistry α)
    (h₀ : newFlowRegistry cfg.toConfig now = .ok r₀) (hrun : Runs administer (fun _ _ => True) r₀ r) :
    (∀ id, (r.shards id).orderedPriorityLevels.Pairwise (· > ·) ∧ (r.shards id).orderedPriorityLevels.Nodup ∧
      ∀ p, p ∈ (r.shards id).orderedPriorityLevels ↔ p ∈ (r.shards id).priorityBands) ∧
    (∀ id ∈ r.activeShards, ∀ p, p ∈ (r.shards id).orderedPriorityLevels ↔ p ∈ r.config.priorityBands) ∧
    (∀ op r₁, r.Repartitions op r₁ → ∀ id ∈ r₁.activeShards, ∀ p,
      (p ∈ (r₁.shards id).priorityBands → p ∈ r₁.config.priorityBands) ∧
      (p ∈ r₁.config.priorityBands → p ∈ (r₁.shards id).priorityBands ∨ p ∉ r.config.priorityBands)) ∧
    ∀ op e, r.administer op = .error e → e ≠ .missingConfig := by
  obtain ⟨ht, hlevelled⟩ := runs_levelled cfg now h₀ hrun
  refine ⟨fun id => ⟨(hlevelled id).sorted, (hlevelled id).sorted.imp fun hgt => ne_of_gt hgt, (hlevelled id).mem_iff⟩,
    fun id hid p => ?_, fun op r₁ hr id hid p => ht.repartitions hr hid p, fun op e herr => ht.administer_error herr⟩
  rw [(hlevelled id).mem_iff, (ht.agrees hid).mem_iff]

/-- Two bands come, one between the others, and the first one goes. -/
theorem levels_agree_seven : ∃ r₀ r : FlowRegistry Request,
    newFlowRegistry Request.smallConfig.toConfig 1 = .ok r₀ ∧
    Runs administer (fun _ _ => True) r₀ r ∧
    (r.shards 0).orderedPriorityLevels = [7, 3] ∧ (r.shards 0).orderedPriorityLevels.Pairwise (· > ·) :=
  exists_run
    [.ensurePriorityBand 7, .registry (.scale 3), .ensurePriorityBand 3, .deletePriorityBand 0, .registry (.scale 2)]
    (fun r => (r.shards 0).orderedPriorityLevels = [7, 3]) (by decide +kernel) fun r₀ r h₀ hrun hlevels =>
      ⟨hlevels, ((levels_agree Request.smallConfig 1 r₀ r h₀ hrun).1 0).1⟩

/-- The update that comes with a new band gives an active shard a configuration with a band that the shard does not
have yet. -/
theorem new_band_missing_on_shard : ∃ r₀ r : FlowRegistry Request,
    newFlowRegistry Request.smallConfig.toConfig 1 = .ok r₀ ∧
    Runs administer (fun _ _ => True) r₀ r ∧
    r.Repartitions (.ensurePriorityBand 7) (r.withBand 7) ∧
    0 ∈ (r.withBand 7).activeShards ∧ 7 ∈ (r.withBand 7).config.priorityBands ∧ 7 ∉ ((r.withBand 7).shards 0).priorityBands ∧
    (r.withBand 7).repartitionShardConfigsLocked.isOk = true :=
  exists_run []
    (fun r => 7 ∉ r.config.priorityBands ∧ 0 ∈ (r.withBand 7).activeShards ∧ 7 ∈ (r.withBand 7).config.priorityBands ∧
      7 ∉ ((r.withBand 7).shards 0).priorityBands ∧ (r.withBand 7).repartitionShardConfigsLocked.isOk = true) (by decide +kernel)
    fun _ _ _ _ h => ⟨.ensurePriorityBand 7 h.1, h.2⟩

end InferenceGateway.Registry
