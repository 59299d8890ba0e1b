import InferenceGateway.Registry.BandSafety
/-!
# Declared bands

A band declared in the configuration has no lease until a flow at its priority
connects; from then on it has one like any other, and the collector takes it
once it has been idle for the timeout. A declared band stays exactly as long as
no cycle of the collector finds it in that state.
-/

namespace InferenceGateway.Registry

open Lib Queue FlowRegistry Request

variable {α : Type} {r r' : FlowRegistry α}

namespace FlowRegistry

/-! ## What the collector takes -/

/-- The collector would take the band. -/
def BandExpired (t : Table Int LeasedState) (timeout now : Int) (p : Int) : Prop :=
  ∃ ls ∈ t.lookup p, ls.Expired timeout now

instance (t : Table Int LeasedState) (timeout now : Int) (p : Int) : Decidable (BandExpired t timeout now p) :=
  inferInstanceAs (Decidable (∃ ls ∈ t.lookup p, ls.Expired timeout now))

theorem bandExpired_unpinBand {t : Table Int LeasedState} {timeout now : Int} (hpos : 0 < timeout) (q p : Int) :
    BandExpired (unpinBand t now q) timeout now p ↔ BandExpired t timeout now p := by
  unfold BandExpired
  rw [lookup_unpinBand]
  split_ifs
  · cases t.lookup p with
    | none => simp
    | some ls => simp [LeasedState.unpin_expired_iff hpos]
  · rfl

/-- The flows collected earlier in the same cycle make no difference. -/
theorem bandExpired_leasesAfterFlows (hpos : 0 < r.config.priorityBandGCTimeout) (p : Int) :
    BandExpired r.leasesAfterFlows r.config.priorityBandGCTimeout r.clock p ↔
      BandExpired r.priorityBandStates r.config.priorityBandGCTimeout r.clock p := by
  unfold leasesAfterFlows
  generalize (collectLeasedResources r.flowStates r.config.flowGCTimeout r.clock).1 = keys
  generalize r.priorityBandStates = t
  induction keys generalizing t with
  | nil => rfl
  | cons key keys ih => rw [List.foldl_cons, ih, bandExpired_unpinBand hpos]

theorem deleteBand_states (r : FlowRegistry α) (p : Int) :
    (r.deleteBand p).priorityBandStates = r.priorityBandStates := by
  unfold deleteBand
  split <;> rfl

theorem lookup_deleteBand {p : Int} (hp : p ∉ r.priorityBandStates) (q : Int) :
    (r.deleteBand p).config.priorityBands.lookup q = if q = p then none else r.config.priorityBands.lookup q := by
  unfold deleteBand
  rw [if_neg hp]
  split_ifs with hq
  · rw [hq]; exact AList.lookup_erase p _
  · exact AList.lookup_erase_ne hq

theorem lookup_cleanupBands (ps : List Int) (q : Int) : ∀ {r : FlowRegistry α}, (∀ p ∈ ps, p ∉ r.priorityBandStates) →
    (r.cleanupPriorityBandResources ps).config.priorityBands.lookup q =
      if q ∈ ps then none else r.config.priorityBands.lookup q := by
  induction ps with
  | nil => intro r _; rfl
  | cons p ps ih =>
    intro r hps
    have hrest : ∀ p' ∈ ps, p' ∉ (r.deleteBand p).priorityBandStates := by
      intro p' hp'
      rw [deleteBand_states]
      exact hps p' (List.mem_cons_of_mem _ hp')
    refine (ih hrest).trans ?_
    rw [lookup_deleteBand (hps p List.mem_cons_self)]
    by_cases hq : q = p
    · simp [hq]
    · simp [hq]

theorem lookup_gcPriorityBands (r : FlowRegistry α) (p : Int) : r.gcPriorityBands.config.priorityBands.lookup p =
    if BandExpired r.priorityBandStates r.config.priorityBandGCTimeout r.clock p then none
    else r.config.priorityBands.lookup p := by
  refine (lookup_cleanupBands _ p (r := { r with priorityBandStates := _ })
    fun q hq hmem => (mem_remaining.1 hmem).2 hq).trans ?_
  exact if_congr mem_collected rfl rfl

/-- A cycle keeps a band exactly when it did not find its lease expired. -/
theorem Topology.gc_keeps_iff (h : r.Topology) {p : Int} {b : PriorityBandConfig α}
    (hb : r.config.priorityBands.lookup p = some b) :
    r.executeGCCycle.config.priorityBands.lookup p = some b ↔
      ¬ BandExpired r.priorityBandStates r.config.priorityBandGCTimeout r.clock p := by
  obtain ⟨h1, -, hc, hl, hclock⟩ := h.gcFlows
  obtain ⟨h2, -⟩ := h1.gcPriorityBands
  rw [FlowRegistry.executeGCCycle, h2.sweepDrainingShards.2.2, lookup_gcPriorityBands, hc, hl, hclock,
    ← bandExpired_leasesAfterFlows h.timeout, hb]
  split_ifs with hx <;> simp [hx]

end FlowRegistry

/-! ## Runs -/

/-- The condition on an operation: a cycle of the collector finds no declared
band whose lease has expired. -/
def Op.Spares (cfg : Config α) (r : FlowRegistry α) : Op α → Prop
  | .gc => ∀ p ∈ cfg.priorityBands.keys, ∀ ls ∈ r.priorityBandStates.lookup p,
      ¬ ls.Expired r.config.priorityBandGCTimeout r.clock
  | _ => True

instance (cfg : Config α) (r : FlowRegistry α) (op : Op α) : Decidable (op.Spares cfg r) :=
  match op with
  | .gc => inferInstanceAs (Decidable (∀ p ∈ cfg.priorityBands.keys, ∀ ls ∈ r.priorityBandStates.lookup p,
      ¬ ls.Expired r.config.priorityBandGCTimeout r.clock))
  | .connect _ => .isTrue trivial
  | .disconnect _ _ => .isTrue trivial
  | .tick _ => .isTrue trivial
  | .scale _ => .isTrue trivial
  | .queue _ _ _ => .isTrue trivial
  | .detached _ _ _ => .isTrue trivial

/-- Connections that begin and end, time, and the collector. -/
def Op.IsLeasing : Op α → Bool
  | .connect _ => true
  | .disconnect _ _ => true
  | .tick _ => true
  | .gc => true
  | _ => false

variable [QueueItemAccessor α] [DecidableEq α]

/-- What one step does to a declared band. -/
theorem FlowRegistry.Topology.step_keeps (h : r.Topology) {cfg : Config α} {op : Op α} (hop : op.Spares cfg r)
    (hok : r.step op = .ok r') {p : Int} (hp : p ∈ cfg.priorityBands) {b : PriorityBandConfig α}
    (hb : r.config.priorityBands.lookup p = some b) : r'.config.priorityBands.lookup p = some b := by
  cases op with
  | connect key => exact (h.connect hok).2.1 p b hb
  | disconnect key since =>
    cases hok
    rw [(h.disconnect key since).2.2, hb]
  | tick d => cases hok; exact hb
  | gc =>
    cases hok
    rw [h.gc_keeps_iff hb]
    rintro ⟨ls, hls, hx⟩
    exact hop p (AList.mem_keys.1 hp) ls hls hx
  | scale n => rw [(h.updateShardCount hok).2.2, hb]
  | queue id key op => rw [(h.queueOp hok).2.2, hb]
  | detached id i op => rw [(h.detachedOp hok).2.2, hb]

/-- In every run whose operations meet the condition, every band declared in the
configuration is still there as it was declared, and every active shard has it
with its policies and the shard's share of its limits. -/
theorem declared_bands_stay (cfg : ValidConfig α) (now : Int) (r₀ r : FlowRegistry α)
    (h₀ : newFlowRegistry cfg.toConfig now = .ok r₀)
    (hrun : Runs step (fun r op => Op.Spares cfg.toConfig r op) r₀ r)
    (p : Int) (b : PriorityBandConfig α) (hb : cfg.priorityBands.lookup p = some b) :
    r.config.priorityBands.lookup p = some b ∧ ∀ i (hi : i < r.activeShards.length),
      (r.shards r.activeShards[i]).config.priorityBands.lookup p = some (b.partition i r.activeShards.length) ∧
      ((r.shards r.activeShards[i]).priorityBands.lookup p).map (fun band => (band.config, band.fairnessPolicy)) =
        some (b.partition i r.activeShards.length, b.fairnessPolicy) := by
  obtain ⟨ht, -, hc⟩ := newFlowRegistry_topology cfg now h₀
  have hinv : r.Topology ∧ r.config.priorityBands.lookup p = some b := by
    refine Runs.invariant (fun r => r.Topology ∧ r.config.priorityBands.lookup p = some b) (fun s op s' hs hC hok => ?_)
      ⟨ht, by rw [hc]; exact hb⟩ hrun
    exact ⟨(hs.1.step hok).1, hs.1.step_keeps hC hok (Table.mem_of_lookup hb) hs.2⟩
  refine ⟨hinv.2, fun i hi => ?_⟩
  have hcar := (hinv.1.active i hi).bands p
  rw [hinv.2] at hcar
  exact hcar

/-- A flow at the declared priority connects, leaves and is collected; the band's
lease is then younger than the timeout, and the band is there. -/
theorem declared_bands_stay_while_young : ∃ r₀ r : FlowRegistry Request,
    newFlowRegistry config.toConfig 1 = .ok r₀ ∧
    Runs step (fun r op => Op.Spares config.toConfig r op) r₀ r ∧
    r.flowStates.keys = [] ∧ r.config.priorityBands.lookup 0 = some (band 0) := by
  have hb : config.priorityBands.lookup 0 = some (band 0) := rfl
  exact exists_run [.connect ⟨"a", 0⟩, .disconnect ⟨"a", 0⟩ 1, .tick 5, .gc, .tick 9, .gc] (fun r => r.flowStates.keys = [])
    (by decide +kernel) fun r₀ r h₀ hrun hflows => ⟨hflows, (declared_bands_stay config 1 r₀ r h₀ hrun 0 _ hb).1⟩

/-- One tick later the same band is collected, although it was declared. -/
theorem declared_band_collected : ∃ r₀ r : FlowRegistry Request,
    newFlowRegistry config.toConfig 1 = .ok r₀ ∧
    Runs step (fun _ op => Op.IsLeasing op = true) r₀ r ∧
    0 ∈ config.priorityBands ∧ 0 ∉ r.config.priorityBands :=
  exists_run [.connect ⟨"a", 0⟩, .disconnect ⟨"a", 0⟩ 1, .tick 5, .gc, .tick 10, .gc] (fun r => 0 ∉ r.config.priorityBands)
    (by decide +kernel) fun _ _ _ _ hgone => ⟨by decide +kernel, hgone⟩

end InferenceGateway.Registry
