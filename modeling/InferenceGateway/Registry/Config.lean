import InferenceGateway.Lib.Table
import InferenceGateway.Queue.SafeQueue
/-!
# The registry's configuration

`config.go`: the master configuration, its validation, and its partition over
the shards. The policies of a band are plugin instances that the configuration
has already been given, so the checks for missing ones are not here.
-/

namespace InferenceGateway.Registry

open Lib Queue

structure FairnessPolicy where
  typedName : String
deriving DecidableEq, Repr

structure PriorityBandConfig (α : Type) where
  priority : Int
  orderingPolicy : OrderingPolicy α
  fairnessPolicy : FairnessPolicy
  queue : String
  maxBytes : UInt64
  maxRequests : UInt64

/-- Durations are in nanoseconds. -/
structure Config (α : Type) where
  maxBytes : UInt64
  maxRequests : UInt64
  priorityBands : Table Int (PriorityBandConfig α)
  defaultPriorityBand : PriorityBandConfig α
  initialShardCount : Int
  flowGCTimeout : Int
  priorityBandGCTimeout : Int

/-- The part of the configuration that one shard gets. -/
structure ShardConfig (α : Type) where
  maxBytes : UInt64
  maxRequests : UInt64
  priorityBands : Table Int (PriorityBandConfig α)

variable {α : Type}

/-! ## Validation -/

def quoted (s : String) : String := "\"" ++ s ++ "\""

def QueueCapability.text : QueueCapability → String
  | .fifo => "FIFO"
  | .priorityConfigurable => "PriorityConfigurable"

/-- `CheckCompatibility`: the queue exists and has what the policy asks for. -/
def checkCompatibility (p : OrderingPolicy α) (q : String) : Except String Unit :=
  match newQueueFromName q p with
  | none => .error ("failed to instantiate queue type " ++ quoted q ++ ": no SafeQueue registered with name " ++ quoted q)
  | some tempQueue =>
    match p.requiredQueueCapabilities.find? (fun req => !tempQueue.capabilities.contains req) with
    | none => .ok ()
    | some req => .error ("policy " ++ quoted p.typedName ++ " is not compatible with queue " ++ quoted q ++
        ": missing capability " ++ quoted (QueueCapability.text req) ++ ": policy is not compatible with queue capabilities")

def PriorityBandConfig.validate (p : PriorityBandConfig α) : Except String Unit :=
  if p.queue = "" then .error ("Queue required for priority band " ++ toString p.priority)
  else
    match checkCompatibility p.orderingPolicy p.queue with
    | .error err => .error ("priority band " ++ toString p.priority ++ " configuration error: " ++ err)
    | .ok () => .ok ()

def validateBands : List (PriorityBandConfig α) → Except String Unit
  | [] => .ok ()
  | band :: bands =>
    match band.validate with
    | .error err => .error err
    | .ok () => validateBands bands

namespace Config

def validate (c : Config α) : Except String Unit :=
  if c.initialShardCount ≤ 0 then .error "initialShardCount must be greater than 0"
  else if c.flowGCTimeout ≤ 0 then .error "flowGCTimeout must be positive"
  else if c.priorityBandGCTimeout ≤ 0 then .error "priorityBandGCTimeout must be positive"
  else if c.priorityBandGCTimeout < c.flowGCTimeout then .error "priorityBandGCTimeout must be >= flowGCTimeout"
  else
    match { c.defaultPriorityBand with priority := 0 }.validate with
    | .error err => .error ("invalid DefaultPriorityBand configuration: " ++ err)
    | .ok () => validateBands (c.priorityBands.entries.map (·.2))

end Config

/-- A configuration that `NewConfig` has let through. Each band is filed under
its own priority, which is how `WithPriorityBand` adds it. -/
structure ValidConfig (α : Type) extends Config α where
  valid : toConfig.validate = .ok ()
  keyed : ∀ e ∈ toConfig.priorityBands.entries, e.2.priority = e.1

theorem ValidConfig.priorityBandGCTimeout_pos (c : ValidConfig α) : 0 < c.priorityBandGCTimeout := by
  have h := c.valid
  unfold Config.validate at h
  split_ifs at h
  omega

/-! ## Partition -/

/-- `partitionUint64`: the remainder goes one by one to the first partitions. -/
def partitionUint64 (total : UInt64) (partitionIndex totalPartitions : Nat) : UInt64 :=
  if total = 0 then 0
  else
    let t := UInt64.ofNat totalPartitions
    let base := total / t
    let remainder := total % t
    if UInt64.ofNat partitionIndex < remainder then base + 1 else base

def PriorityBandConfig.partition (template : PriorityBandConfig α) (shardIndex totalShards : Nat) :
    PriorityBandConfig α :=
  { template with
    maxBytes := partitionUint64 template.maxBytes shardIndex totalShards
    maxRequests := partitionUint64 template.maxRequests shardIndex totalShards }

def Config.partition (c : Config α) (shardIndex totalShards : Nat) : ShardConfig α where
  maxBytes := partitionUint64 c.maxBytes shardIndex totalShards
  maxRequests := partitionUint64 c.maxRequests shardIndex totalShards
  priorityBands := c.priorityBands.collect (·.priority) (·.partition shardIndex totalShards)

/-- Each band is filed under its own priority. -/
def Config.Keyed (c : Config α) : Prop := ∀ e ∈ c.priorityBands.entries, e.2.priority = e.1

theorem Config.Keyed.lookup_partition {c : Config α} (h : c.Keyed) (i n : Nat) (p : Int) :
    (c.partition i n).priorityBands.lookup p = (c.priorityBands.lookup p).map (·.partition i n) :=
  Table.lookup_collect _ h p

theorem Config.Keyed.partition {c : Config α} (h : c.Keyed) (i n : Nat) :
    ∀ e ∈ (c.partition i n).priorityBands.entries, e.2.priority = e.1 := by
  intro e he
  have hl := Table.lookup_mem_entries.1 (show (⟨e.1, e.2⟩ : Sigma fun _ : Int => PriorityBandConfig α) ∈ _ from he)
  rw [h.lookup_partition, Option.map_eq_some_iff] at hl
  obtain ⟨b, hb, he2⟩ := hl
  rw [← he2]
  exact h _ (Table.lookup_mem_entries.2 hb)

end InferenceGateway.Registry
