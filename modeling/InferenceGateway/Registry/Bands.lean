import InferenceGateway.Registry.Topology
/-!
# Bands come and go

Connections and garbage collection keep the registry in step.
-/

namespace InferenceGateway.Registry

open Lib Queue List RegistryShard

variable {α : Type} {r r' : FlowRegistry α}

namespace FlowRegistry

/-! ## Connections -/

/-- Every band of the configuration is still there, as it was. -/
def Keeps (r r' : FlowRegistry α) : Prop :=
  ∀ p b, r.config.priorityBands.lookup p = some b → r'.config.priorityBands.lookup p = some b

theorem mem_loadOrStore {K V : Type} [DecidableEq K] (t : Table K V) (k k' : K) (v : V) :
    k' ∈ loadOrStore t k v ↔ k' = k ∨ k' ∈ t := by
  unfold loadOrStore
  split
  · rename_i hk
    constructor
    · exact .inr
    · rintro (rfl | h)
      · exact hk
      · exact h
  · exact AList.mem_insert _

theorem unmarked_loadOrStore {K : Type} [DecidableEq K] {t : Table K LeasedState} (h : Unmarked t) (k : K) :
    Unmarked (loadOrStore t k .fresh) := by
  unfold loadOrStore
  split
  · exact h
  · exact h.insert k rfl

theorem Topology.ensurePriorityBand (h : r.Topology) {p : Int} (hok : r.ensurePriorityBand p = .ok r') :
    r'.Topology ∧ r.Keeps r' ∧ p ∈ r'.config.priorityBands ∧ r'.allShards = r.allShards ∧
      r'.drainingShards = r.drainingShards := by
  by_cases hp : p ∈ r.config.priorityBands
  · unfold FlowRegistry.ensurePriorityBand at hok
    rw [if_pos hp] at hok
    cases hok
    exact ⟨h, fun _ _ hb => hb, hp, rfl, rfl⟩
  · obtain ⟨shards₁, shards₂, rfl, hu, ha⟩ := ensurePriorityBand_ok h.nodup_active hp hok
    have hk := withBand_keyed h.keyed p
    refine ⟨{ h with keyed := hk, active := ?_, stats := ?_, leases := ?_ }, ?_, ?_, rfl, rfl⟩
    · intro i hi
      exact (h.active i hi).addPriorityBand hp rfl hk (hu.inside i hi) (ha.inside i hi)
    · intro q
      simp only [withBand, mem_loadOrStore, h.stats q, AList.mem_insert]
    · exact unmarked_loadOrStore h.leases p
    · intro q b hb
      have hne : q ≠ p := fun he => hp (he ▸ Table.mem_of_lookup hb)
      simp only [withBand, AList.lookup_insert_ne hne, hb]
    · simp only [withBand, AList.mem_insert, true_or]

variable {key : FlowKey}

theorem Topology.synchronizeShards (h : r.Topology) {ok : Bool} (hok : r.synchronizeShards key = .ok (r', ok)) :
    r'.Topology ∧ (r.DrainingInStep → r'.DrainingInStep) ∧ r'.config = r.config := by
  rcases synchronizeShards_ok h.nodup_all hok with ⟨-, rfl⟩ | ⟨policy, q, shards, -, -, rfl, hl⟩
  · exact ⟨h, id, rfl⟩
  · have hs := hl.each (P := fun s s' => s'.frame = s.frame ∧ s'.config = s.config) (fun _ => ⟨rfl, rfl⟩)
      fun _ _ _ => frame_synchronizeFlow
    exact ⟨h.of_frames hs (fun _ => Iff.rfl) _ _, fun hd id hid => (hd id hid).of_frame (hs id).1, rfl⟩

/-- When a connection at this priority leaves the draining shards in step. -/
def BandReaches (r : FlowRegistry α) (p : Int) : Prop := p ∈ r.config.priorityBands ∨ r.drainingShards = []

theorem Topology.ensureFlowInfrastructure_total (h : r.Topology) (hd : r.DrainingInStep)
    (hreach : r.BandReaches key.priority) : ∃ res, r.ensureFlowInfrastructure key = .ok res := by
  unfold FlowRegistry.ensureFlowInfrastructure
  split
  · rename_i hp
    exact synchronizeShards_total h.nodup_all fun id hid => ((h.agrees_all hd hid).mem_iff _).2 hp
  · rename_i hp
    obtain ⟨r₁, he⟩ := ensurePriorityBand_total h.nodup_active h.keyed
      (fun id hid p hb => ((h.agrees hid).mem_iff p).1 hb) key.priority
    obtain ⟨ht, -, hmem, -, hdrain⟩ := h.ensurePriorityBand he
    rw [he]
    refine synchronizeShards_total ht.nodup_all fun id hid => ?_
    rcases ht.mem_all.1 hid with hid | hid
    · exact ((ht.agrees hid).mem_iff _).2 hmem
    · rw [hdrain, hreach.resolve_left hp] at hid
      cases hid

theorem lookup_unpinBand (t : Table Int LeasedState) (now : Int) (q p : Int) :
    (unpinBand t now q).lookup p = if p = q then (t.lookup p).map (·.unpin now) else t.lookup p := by
  unfold unpinBand
  split_ifs with hp
  · subst hp
    cases hl : t.lookup p with
    | none => exact hl
    | some ls => exact AList.lookup_insert _
  · cases hl : t.lookup q with
    | none => rfl
    | some ls => exact AList.lookup_insert_ne hp

theorem unmarked_unpinBand {t : Table Int LeasedState} (h : Unmarked t) (now : Int) (p : Int) :
    Unmarked (unpinBand t now p) := by
  unfold unpinBand
  cases hl : t.lookup p with
  | none => exact h
  | some ls => exact h.insert p (LeasedState.unpin_unmarked (h p ls hl) now)

/-- What leases, a new band and new queues keep, a connection keeps. -/
theorem connect_induction (P : FlowRegistry α → Prop) (start : P r) (topology : ∀ {x}, P x → x.Topology)
    (leases : ∀ {x : FlowRegistry α} {flows bands}, P x → Unmarked flows → Unmarked bands →
      P { x with flowStates := flows, priorityBandStates := bands })
    (band : ∀ {x x' : FlowRegistry α}, P x → x.config = r.config → x.drainingShards = r.drainingShards →
      key ∉ r.flowStates → key.priority ∉ r.config.priorityBands → x.ensurePriorityBand key.priority = .ok x' → P x')
    (sync : ∀ {x x' : FlowRegistry α} {ok}, P x → x.synchronizeShards key = .ok (x', ok) → P x')
    (hok : r.connect key = .ok r') : P r' := by
  have ht := topology start
  unfold connect at hok
  split at hok
  · cases hok
    exact start
  · obtain ⟨states, isNew, hpin, hun, hnew⟩ := ht.flows.pin key
    rw [hpin] at hok
    simp only at hok
    split at hok
    · rename_i hn
      obtain ⟨bands, isNew', hpin', hun', -⟩ := ht.leases.pin key.priority
      have hinfra : ∀ {x ok}, { r with flowStates := states, priorityBandStates := bands }.ensureFlowInfrastructure key =
          .ok (x, ok) → P x := by
        intro x ok hok
        unfold ensureFlowInfrastructure at hok
        split at hok
        · exact sync (leases start hun hun') hok
        · rename_i hp
          split at hok
          · cases hok
          · exact sync (band (leases start hun hun') rfl rfl (hnew.1 hn) hp ‹_›) hok
      unfold provision at hok
      simp only [hpin'] at hok
      split at hok
      · cases hok
      · cases hok
        exact hinfra ‹_›
      · -- the components could not be built: flow and lease are taken back
        rename_i r₁ he
        cases hok
        have ht₁ := topology (hinfra he)
        exact leases (hinfra he) (ht₁.flows.erase key) (unmarked_unpinBand ht₁.leases r₁.clock key.priority)
    · cases hok
      exact leases start hun ht.leases

theorem Topology.connect (h : r.Topology) (hok : r.connect key = .ok r') : r'.Topology ∧ r.Keeps r' ∧
      (r.DrainingInStep → key ∈ r.flowStates ∨ r.BandReaches key.priority → r'.DrainingInStep) := by
  refine connect_induction (fun x => x.Topology ∧ r.Keeps x ∧
    (r.DrainingInStep → key ∈ r.flowStates ∨ r.BandReaches key.priority → x.DrainingInStep))
    ⟨h, fun _ _ hb => hb, fun hd _ => hd⟩ And.left
    (fun hx hf hb => ⟨{ hx.1 with flows := hf, leases := hb }, hx.2⟩) ?_ ?_ hok
  · rintro x x' ⟨ht, hk, -⟩ - hd hnew hp he
    obtain ⟨ht', hk', -, -, hd'⟩ := ht.ensurePriorityBand he
    refine ⟨ht', fun p b hb => hk' p b (hk p b hb), fun _ hreach id hid => ?_⟩
    rw [hd', hd, (hreach.resolve_left hnew).resolve_left hp] at hid
    cases hid
  · rintro x x' ok ⟨ht, hk, hd⟩ hs
    obtain ⟨ht', hd', hc⟩ := ht.synchronizeShards hs
    exact ⟨ht', fun p b hb => hc ▸ hk p b hb, fun hin hreach => hd' (hd hin hreach)⟩

theorem Topology.connect_total (h : r.Topology) (hd : r.DrainingInStep)
    (hreach : key ∈ r.flowStates ∨ r.BandReaches key.priority) : ∃ r', r.connect key = .ok r' := by
  unfold FlowRegistry.connect
  split
  · exact ⟨r, rfl⟩
  · obtain ⟨states, isNew, hpin, hun, hnew⟩ := h.flows.pin key
    rw [hpin]
    simp only
    split
    · rename_i hn
      obtain ⟨bands, isNew', hpin', hun', -⟩ := h.leases.pin key.priority
      have hp : { r with flowStates := states, priorityBandStates := bands }.Topology :=
        { h with flows := hun, leases := hun' }
      obtain ⟨⟨r₁, ok⟩, he⟩ := hp.ensureFlowInfrastructure_total hd (hreach.resolve_left (hnew.1 hn))
      unfold FlowRegistry.provision
      simp only [hpin', he]
      cases ok <;> exact ⟨_, rfl⟩
    · exact ⟨_, rfl⟩

theorem Topology.disconnect (h : r.Topology) (key : FlowKey) (since : Int) : (r.disconnect key since).Topology ∧
    ((r.disconnect key since).DrainingInStep ↔ r.DrainingInStep) ∧ (r.disconnect key since).config = r.config := by
  unfold FlowRegistry.disconnect
  cases hl : r.flowStates.lookup key with
  | none => exact ⟨h, Iff.rfl, rfl⟩
  | some ls =>
    simp only
    split
    · exact ⟨{ h with flows := h.flows.insert key (LeasedState.unpin_unmarked (h.flows key ls hl) _) }, Iff.rfl, rfl⟩
    · exact ⟨h, Iff.rfl, rfl⟩

/-! ## Garbage collection -/

theorem Topology.cleanupFlowResources (keys : List FlowKey) : ∀ {r : FlowRegistry α}, r.Topology →
    (r.cleanupFlowResources keys).Topology ∧
      (r.DrainingInStep → (r.cleanupFlowResources keys).DrainingInStep) ∧
      (r.cleanupFlowResources keys).config = r.config ∧
      (r.cleanupFlowResources keys).priorityBandStates = r.priorityBandStates ∧
      (r.cleanupFlowResources keys).clock = r.clock := by
  induction keys with
  | nil => intro r h; exact ⟨h, id, rfl, rfl, rfl⟩
  | cons key keys ih =>
    intro r h
    unfold FlowRegistry.cleanupFlowResources
    split
    · exact ih h
    · have hs := onShards_each (P := fun s s' => s'.frame = s.frame ∧ s'.config = s.config) (fun _ => ⟨rfl, rfl⟩)
        (frame_deleteFlow · key) r.allShards r.shards
      obtain ⟨h1, h2, h3⟩ := ih (h.of_frames hs (fun _ => Iff.rfl) r.totalLen r.totalByteSize)
      exact ⟨h1, fun hd => h2 fun id hid => (hd id hid).of_frame (hs id).1, h3⟩

theorem unmarked_unpinAll {t : Table Int LeasedState} (h : Unmarked t) (now : Int) (keys : List FlowKey) :
    Unmarked (keys.foldl (fun t (key : FlowKey) => unpinBand t now key.priority) t) := by
  induction keys generalizing t with
  | nil => exact h
  | cons key keys ih => exact ih (unmarked_unpinBand h now key.priority)

/-- The leases of the bands after the flows have been collected. -/
def leasesAfterFlows (r : FlowRegistry α) : Table Int LeasedState :=
  (collectLeasedResources r.flowStates r.config.flowGCTimeout r.clock).1.foldl
    (fun t (key : FlowKey) => unpinBand t r.clock key.priority) r.priorityBandStates

theorem Topology.gcFlows (h : r.Topology) : r.gcFlows.Topology ∧ (r.DrainingInStep → r.gcFlows.DrainingInStep) ∧
    r.gcFlows.config = r.config ∧ r.gcFlows.priorityBandStates = r.leasesAfterFlows ∧ r.gcFlows.clock = r.clock :=
  cleanupFlowResources _ (r := { r with flowStates := _, priorityBandStates := r.leasesAfterFlows })
    { h with flows := h.flows.collect _ _, leases := unmarked_unpinAll h.leases _ _ }

theorem Topology.deleteBand (h : r.Topology) (p : Int) :
    (r.deleteBand p).Topology ∧ (r.DrainingInStep → (r.deleteBand p).DrainingInStep) := by
  unfold FlowRegistry.deleteBand
  split
  · exact ⟨h, id⟩
  · have hs : ∀ id ∈ r.allShards, onShards r.allShards (·.deletePriorityBand p) r.shards id =
        (r.shards id).deletePriorityBand p := fun id hid => if_pos hid
    refine ⟨{ h with keyed := ?_, active := ?_, stats := ?_ }, fun hd id hid => ?_⟩
    · exact fun e he => h.keyed e ((kerase_sublist p _).subset he)
    · intro i hi
      simp only [hs _ (h.mem_all.2 (.inl (getElem_mem hi)))]
      exact (h.active i hi).deletePriorityBand p
    · intro q
      simp only [AList.mem_erase, h.stats q]
    · simp only [hs _ (h.mem_all.2 (.inr hid))]
      exact (hd id hid).deletePriorityBand p

theorem Topology.cleanupPriorityBandResources (ps : List Int) : ∀ {r : FlowRegistry α}, r.Topology →
    (r.cleanupPriorityBandResources ps).Topology ∧
      (r.DrainingInStep → (r.cleanupPriorityBandResources ps).DrainingInStep) := by
  induction ps with
  | nil => intro r h; exact ⟨h, id⟩
  | cons p ps ih =>
    intro r h
    obtain ⟨h1, h2⟩ := h.deleteBand p
    obtain ⟨h3, h4⟩ := ih h1
    exact ⟨h3, fun hd => h4 (h2 hd)⟩

theorem Topology.gcPriorityBands (h : r.Topology) :
    r.gcPriorityBands.Topology ∧ (r.DrainingInStep → r.gcPriorityBands.DrainingInStep) :=
  cleanupPriorityBandResources _ (r := { r with priorityBandStates := _ }) { h with leases := h.leases.collect _ _ }

theorem Topology.sweepDrainingShards (h : r.Topology) : r.sweepDrainingShards.Topology ∧
    (r.DrainingInStep → r.sweepDrainingShards.DrainingInStep) ∧ r.sweepDrainingShards.config = r.config := by
  unfold FlowRegistry.sweepDrainingShards
  simp only
  split
  · exact ⟨h, id, rfl⟩
  · have hsub := (filter_sublist (p := fun id => (r.shards id).totalLen != 0) (l := r.drainingShards)).append_left
      r.activeShards
    exact ⟨{ h with
      perm := updateAll_perm _
      nodup := h.nodup.sublist hsub
      below := fun id hid => h.below id (hsub.subset hid) },
      fun hd id hid => hd id (mem_of_mem_filter hid), rfl⟩

theorem Topology.executeGCCycle (h : r.Topology) :
    r.executeGCCycle.Topology ∧ (r.DrainingInStep → r.executeGCCycle.DrainingInStep) := by
  obtain ⟨h1, d1, -⟩ := h.gcFlows
  obtain ⟨h2, d2⟩ := h1.gcPriorityBands
  obtain ⟨h3, d3, -⟩ := h2.sweepDrainingShards
  exact ⟨h3, fun hd => d3 (d2 (d1 hd))⟩

end FlowRegistry

end InferenceGateway.Registry
