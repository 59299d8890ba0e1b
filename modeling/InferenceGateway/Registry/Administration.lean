import InferenceGateway.Registry.ShardSteps
import InferenceGateway.Registry.Shares
/-!
# The limits of the shards

Shards come and go, and so do bands: by themselves, with connections, and with the
garbage collection. After every operation the limits of the active shards are the
parts of the configured ones.
-/

namespace InferenceGateway.Registry

open Lib Queue List FlowRegistry RegistryShard

variable {α : Type} {r r' : FlowRegistry α}

/-! ## Operations -/

/-- What can happen to a registry, with what happens to its bands as operations of their own. -/
inductive AdminOp (α : Type) where
  | registry (op : Op α)
  | ensurePriorityBand (priority : Int)
  | cleanupPriorityBandResources (priorities : List Int)
  | deletePriorityBand (priority : Int)

/-- A number of shards is an `int`. -/
def AdminOp.InRange : AdminOp α → Prop
  | registry (.scale n) => n < 2 ^ 63
  | _ => True

instance (op : AdminOp α) : Decidable op.InRange :=
  match op with
  | .registry (.scale n) => inferInstanceAs (Decidable (n < 2 ^ 63))
  | .registry (.connect _) | .registry (.disconnect _ _) | .registry (.tick _) | .registry .gc | .registry (.queue ..)
  | .registry (.detached ..) => .isTrue trivial
  | .ensurePriorityBand _ | .cleanupPriorityBandResources _ | .deletePriorityBand _ => .isTrue trivial

namespace FlowRegistry

def deletePriorityBand (fr : FlowRegistry α) (priority : Int) : FlowRegistry α :=
  { fr with priorityBandStates := fr.priorityBandStates.erase priority }.cleanupPriorityBandResources [priority]

variable [QueueItemAccessor α] [DecidableEq α]

def administer (fr : FlowRegistry α) : AdminOp α → Except Fault (FlowRegistry α)
  | .registry op => fr.step op
  | .ensurePriorityBand priority => fr.ensurePriorityBand priority
  | .cleanupPriorityBandResources priorities => .ok (fr.cleanupPriorityBandResources priorities)
  | .deletePriorityBand priority => .ok (fr.deletePriorityBand priority)

theorem Topology.administer (h : r.Topology) {op : AdminOp α} (hok : r.administer op = .ok r') : r'.Topology := by
  cases op with
  | registry op => exact (h.step hok).1
  | ensurePriorityBand p => exact (h.ensurePriorityBand hok).1
  | cleanupPriorityBandResources ps =>
    cases hok
    exact (Topology.cleanupPriorityBandResources ps h).1
  | deletePriorityBand p =>
    cases hok
    have herased : { r with priorityBandStates := r.priorityBandStates.erase p }.Topology :=
      { h with leases := h.leases.erase p }
    exact (Topology.cleanupPriorityBandResources [p] herased).1

theorem Topology.administer_moves (h : r.Topology) {op : AdminOp α} (hok : r.administer op = .ok r') :
    r.Moves r' ∨ ∃ n, op = .registry (.scale n) ∧ r.Scales r' n := by
  cases op with
  | registry op =>
    rcases h.step_moves hok with hm | ⟨n, rfl, hs⟩
    · exact .inl hm
    · exact .inr ⟨n, rfl, hs⟩
  | ensurePriorityBand p => exact .inl (h.ensurePriorityBand_moves hok)
  | cleanupPriorityBandResources ps =>
    cases hok
    exact .inl (cleanupPriorityBandResources_moves ps r)
  | deletePriorityBand p =>
    cases hok
    have herased : r.Moves { r with priorityBandStates := r.priorityBandStates.erase p } := .of_eq rfl rfl
    exact .inl (herased.trans (cleanupPriorityBandResources_moves [p] _))

end FlowRegistry

/-! ## Parts -/

/-- The limits that a shard's own configuration has. -/
def ShardConfig.limit (c : ShardConfig α) : Counter → UInt64
  | .totalByteSize => c.maxBytes
  | .totalLen => c.maxRequests
  | .byteSize p => ((c.priorityBands.lookup p).map (·.maxBytes)).getD 0
  | .len p => ((c.priorityBands.lookup p).map (·.maxRequests)).getD 0

/-- The bands of a shard have the limits that its configuration has for them. -/
theorem RegistryShard.Carries.config_limit {s : RegistryShard α} {c : Config α} {i n : Nat} (h : s.Carries c i n) (k : Counter) :
    s.config.limit k = s.limit k := by
  cases k with
  | totalByteSize | totalLen => rfl
  | byteSize p =>
    rw [(limit_frame s p).1, ShardConfig.limit, (h.bands p).1, (h.bands p).2, Option.map_map, Option.map_map]
    rfl
  | len p =>
    rw [(limit_frame s p).2, ShardConfig.limit, (h.bands p).1, (h.bands p).2, Option.map_map, Option.map_map]
    rfl

/-- Two parts differ by one at most. -/
theorem partitionUint64_le (total : UInt64) {i j n : Nat} (hi : i < n) (hj : j < n) (hn : n < 2 ^ 64) :
    (partitionUint64 total i n).toNat ≤ (partitionUint64 total j n).toNat + 1 := by
  by_cases ht : total = 0
  · subst ht
    exact Nat.zero_le _
  · rw [toNat_partitionUint64 ht hi hn, toNat_partitionUint64 ht hj hn]
    split <;> split <;> omega

namespace FlowRegistry

theorem Topology.limits_eq (h : r.Topology) (k : Counter) :
    (r.activeShards.map fun id => ((r.shards id).limit k).toNat) =
      (List.range r.activeShards.length).map fun i => (partitionUint64 (r.config.limit k) i r.activeShards.length).toNat := by
  refine ext_getElem (by simp) fun i hi _ => ?_
  rw [length_map] at hi
  rw [getElem_map, getElem_map, getElem_range, (h.active i hi).limit]

end FlowRegistry

variable [QueueItemAccessor α] [DecidableEq α]

theorem newFlowRegistry_active (cfg : ValidConfig α) (now : Int) (h : newFlowRegistry cfg.toConfig now = .ok r) :
    0 < cfg.initialShardCount ∧ r.activeShards.length = cfg.initialShardCount.toNat := by
  have hpos : 0 < cfg.initialShardCount := by
    have hvalid := cfg.valid
    unfold Config.validate at hvalid
    split_ifs at hvalid
    omega
  -- there are no flows yet whose components could not be built
  rcases (emptyRegistry_topology cfg now).updateShardCount_scales h with ⟨-, hnot | hnot | hnot⟩ | hs
  · omega
  · exact absurd hnot hpos.ne'
  · cases hnot
  · exact ⟨hpos, hs.active⟩

/-- In every run, and for every limit of the configuration: the limits of the active shards add up
to it, the shards' configurations and their bands agree on them, and no two of them differ by more than one. -/
theorem limits_partitioned (cfg : ValidConfig α) (now : Int) (hcount : cfg.initialShardCount < 2 ^ 63) (r₀ r : FlowRegistry α)
    (h₀ : newFlowRegistry cfg.toConfig now = .ok r₀)
    (hrun : Runs administer (fun _ op => op.InRange) r₀ r) (k : Counter) :
    (r.activeShards.map fun id => ((r.shards id).limit k).toNat).sum = (r.config.limit k).toNat ∧
      (∀ id ∈ r.activeShards, (r.shards id).config.limit k = (r.shards id).limit k) ∧
      ∀ id ∈ r.activeShards, ∀ id' ∈ r.activeShards,
        ((r.shards id).limit k).toNat ≤ ((r.shards id').limit k).toNat + 1 := by
  have hstart : r₀.Topology ∧ 0 < r₀.activeShards.length ∧ r₀.activeShards.length < 2 ^ 63 := by
    obtain ⟨hpos, hactive⟩ := newFlowRegistry_active cfg now h₀
    refine ⟨(newFlowRegistry_topology cfg now h₀).1, ?_⟩
    omega
  obtain ⟨ht, hpos, hlt⟩ : r.Topology ∧ 0 < r.activeShards.length ∧ r.activeShards.length < 2 ^ 63 := by
    refine Runs.invariant (fun r => r.Topology ∧ 0 < r.activeShards.length ∧ r.activeShards.length < 2 ^ 63)
      (fun s op s' hs hop hok => ⟨hs.1.administer hok, ?_⟩) hstart hrun
    rcases hs.1.administer_moves hok with hm | ⟨n, rfl, hn⟩
    · rw [hm.active]
      exact hs.2
    · have hn₀ := hn.pos
      have hn₁ : n < 2 ^ 63 := hop
      rw [hn.active]
      omega
  refine ⟨?_, fun id hid => ?_, fun id hid id' hid' => ?_⟩
  · rw [ht.limits_eq k, sum_partitionUint64 _ hpos (by omega)]
  · obtain ⟨i, hi, rfl⟩ := getElem_of_mem hid
    exact (ht.active i hi).config_limit k
  · obtain ⟨i, hi, rfl⟩ := getElem_of_mem hid
    obtain ⟨j, hj, rfl⟩ := getElem_of_mem hid'
    rw [(ht.active i hi).limit, (ht.active j hj).limit]
    exact partitionUint64_le _ hi hj (by omega)

/-- Seven requests for the one band of two shards. -/
def Request.smallConfig : ValidConfig Request where
  maxBytes := 10
  maxRequests := 7
  priorityBands := AList.singleton 0 (Request.band 0)
  defaultPriorityBand := Request.band 0
  initialShardCount := 2
  flowGCTimeout := 5
  priorityBandGCTimeout := 10
  valid := by decide +kernel
  keyed := Request.config.keyed

/-- Three shards, a band that comes and one that goes, and two shards again. -/
theorem limits_partitioned_seven : ∃ r₀ r : FlowRegistry Request,
    newFlowRegistry Request.smallConfig.toConfig 1 = .ok r₀ ∧
    Runs administer (fun _ op => op.InRange) r₀ r ∧
    (r.activeShards.map fun id => (r.shards id).limit .totalLen) = [4, 3] ∧
    (r.activeShards.map fun id => ((r.shards id).limit .totalLen).toNat).sum = (r.config.limit .totalLen).toNat :=
  exists_run [.registry (.scale 3), .ensurePriorityBand 7, .deletePriorityBand 0, .registry (.scale 2)]
    (fun r => (r.activeShards.map fun id => (r.shards id).limit .totalLen) = [4, 3]) (by decide +kernel) fun r₀ r h₀ hrun hparts =>
      ⟨hparts, (limits_partitioned Request.smallConfig 1 (by decide) r₀ r h₀ hrun .totalLen).1⟩

end InferenceGateway.Registry
