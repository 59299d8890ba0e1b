import InferenceGateway.Registry.Config
/-!
# Managed queues and shards

`managedqueue.go` and `shard.go`. A managed queue is a queue with two counters;
whatever changes it also sends the change of its length and byte size to its
shard, which adds it to the band and the shard and sends it on to the registry.

Go panics when a lookup whose result is not checked misses, and when the length
of a queue becomes negative: these are the `Fault`s. A queue that its shard has
deleted can still be in a caller's hands, so the shard keeps it as `detached`.
-/

namespace InferenceGateway.Registry

open Lib Queue

structure FlowKey where
  id : String
  priority : Int
deriving DecidableEq, Repr

/-- What stops the program. -/
inductive Fault where
  /-- The type assertion on a band that is not in the map. -/
  | missingBand
  /-- A `nil` band configuration dereferenced. -/
  | missingConfig
  /-- The invariant check of `propagateStatsDeltaLocked`. -/
  | negativeLength
  /-- A caller that spins on a resource marked for deletion. -/
  | spinning
deriving DecidableEq, Repr

/-- A change of length and byte size on its way up. -/
structure StatsDelta where
  len : Int64
  byteSize : Int64
deriving DecidableEq

inductive QueueOp (α : Type) where
  | add (x : α)
  | remove (handle : QueueItemHandle)
  | cleanup (predicate : α → Bool)
  | drain

structure ManagedQueue (α : Type) where
  key : FlowKey
  policy : OrderingPolicy α
  queue : SafeQueue α
  len : Int64
  byteSize : Int64

variable {α : Type}

def newManagedQueue (queue : SafeQueue α) (policy : OrderingPolicy α) (key : FlowKey) : ManagedQueue α where
  key := key
  policy := policy
  queue := queue
  len := 0
  byteSize := 0

namespace ManagedQueue

def items (mq : ManagedQueue α) : List α := mq.queue.items

def propagateStatsDeltaLocked (mq : ManagedQueue α) (d : StatsDelta) : Except Fault (ManagedQueue α × Option StatsDelta) :=
  let newLen := mq.len + d.len
  if newLen < 0 then .error .negativeLength
  else .ok ({ mq with len := newLen, byteSize := mq.byteSize + d.byteSize }, some d)

variable [QueueItemAccessor α]

/-- `int64(item.OriginalRequest().ByteSize())`. -/
def size (x : α) : Int64 := (QueueItemAccessor.byteSize x).toInt64

def removedDelta (items : List α) : StatsDelta :=
  items.foldl (fun d x => ⟨d.len - 1, d.byteSize - size x⟩) ⟨0, 0⟩

/-- Refused with `ErrShardDraining` on a draining shard. -/
def add [DecidableEq α] (mq : ManagedQueue α) (isDraining : Bool) (x : α) :
    Except Fault (ManagedQueue α × Option StatsDelta) :=
  if isDraining then .ok (mq, none)
  else { mq with queue := mq.queue.add x }.propagateStatsDeltaLocked ⟨1, size x⟩

variable (mq : ManagedQueue α)

def remove (handle : QueueItemHandle) : Except Fault (ManagedQueue α × Option StatsDelta) :=
  match mq.queue.remove handle with
  | .error _ => .ok (mq, none)
  | .ok (removedItem, queue) => { mq with queue := queue }.propagateStatsDeltaLocked ⟨-1, -size removedItem⟩

/-- `propagateStatsDeltaForRemovedItemsLocked`, with the early return before it. -/
def propagateRemoved (r : List α × SafeQueue α) : Except Fault (ManagedQueue α × Option StatsDelta) :=
  if r.1.length = 0 then .ok ({ mq with queue := r.2 }, none)
  else { mq with queue := r.2 }.propagateStatsDeltaLocked (removedDelta r.1)

def cleanup (predicate : α → Bool) : Except Fault (ManagedQueue α × Option StatsDelta) :=
  mq.propagateRemoved (mq.queue.cleanup predicate)

def drain : Except Fault (ManagedQueue α × Option StatsDelta) :=
  mq.propagateRemoved mq.queue.drain

def perform [DecidableEq α] (mq : ManagedQueue α) (isDraining : Bool) : QueueOp α → Except Fault (ManagedQueue α × Option StatsDelta)
  | .add x => mq.add isDraining x
  | .remove handle => mq.remove handle
  | .cleanup predicate => mq.cleanup predicate
  | .drain => mq.drain

end ManagedQueue

structure PriorityBand (α : Type) where
  fairnessPolicy : FairnessPolicy
  config : PriorityBandConfig α
  queues : Table String (ManagedQueue α)
  byteSize : Int64
  len : Int64

structure RegistryShard (α : Type) where
  /-- The number in the shard's name. -/
  id : Nat
  config : ShardConfig α
  orderedPriorityLevels : List Int
  priorityBands : Table Int (PriorityBand α)
  isDraining : Bool
  totalByteSize : Int64
  totalLen : Int64
  /-- Queues deleted from the shard. -/
  detached : List (ManagedQueue α)

namespace RegistryShard

variable (s : RegistryShard α)

def initPriorityBand (bandConfig : PriorityBandConfig α) : RegistryShard α :=
  let band : PriorityBand α :=
    { fairnessPolicy := bandConfig.fairnessPolicy, config := bandConfig, queues := ∅, byteSize := 0, len := 0 }
  { s with
    priorityBands := s.priorityBands.insert bandConfig.priority band
    orderedPriorityLevels :=
      (s.orderedPriorityLevels ++ [bandConfig.priority]).insertionSort (fun p q => q ≤ p) }

def newShard (id : Nat) (config : ShardConfig α) : RegistryShard α :=
  (config.priorityBands.entries.map (·.2)).foldl initPriorityBand
    { id := id, config := config, orderedPriorityLevels := [], priorityBands := ∅, isDraining := false,
      totalByteSize := 0, totalLen := 0, detached := [] }

def addPriorityBand (priority : Int) : Except Fault (RegistryShard α) :=
  if priority ∈ s.priorityBands then .ok s
  else
    match s.config.priorityBands.lookup priority with
    | none => .error .missingConfig
    | some bandConfig => .ok (s.initPriorityBand bandConfig)

def deletePriorityBand (priority : Int) : RegistryShard α :=
  { s with
    priorityBands := s.priorityBands.erase priority
    config := { s.config with priorityBands := s.config.priorityBands.erase priority }
    orderedPriorityLevels := s.orderedPriorityLevels.erase priority
    detached := s.detached ++
      match s.priorityBands.lookup priority with
      | none => []
      | some band => band.queues.entries.map (·.2) }

def isActive : Bool := !s.isDraining

variable (key : FlowKey)

/-- `ManagedQueue`; a missing band or flow is an error to the caller. -/
def managedQueue : Option (ManagedQueue α) :=
  (s.priorityBands.lookup key.priority).bind fun band => band.queues.lookup key.id

def synchronizeFlow (policy : OrderingPolicy α) (q : SafeQueue α) :
    Except Fault (RegistryShard α) :=
  match s.priorityBands.lookup key.priority with
  | none => .error .missingBand
  | some band =>
    if key.id ∈ band.queues then .ok s
    else
      let mq := newManagedQueue q policy key
      let band := { band with queues := band.queues.insert key.id mq }
      .ok { s with priorityBands := s.priorityBands.insert key.priority band }

def deleteFlow : RegistryShard α :=
  match s.priorityBands.lookup key.priority with
  | none => s
  | some band =>
    { s with
      priorityBands := s.priorityBands.insert key.priority { band with queues := band.queues.erase key.id }
      detached := s.detached ++ (band.queues.lookup key.id).toList }

def markAsDraining : RegistryShard α := { s with isDraining := true }

def updateConfig (newConfig : ShardConfig α) : Except Fault (RegistryShard α) :=
  if ∀ p ∈ s.priorityBands.keys, p ∈ newConfig.priorityBands then
    .ok { s with
      config := newConfig
      priorityBands := s.priorityBands.mapVals fun p band =>
        match newConfig.priorityBands.lookup p with
        | none => band
        | some newBandConfig => { band with config := newBandConfig } }
  else .error .missingConfig

def propagateStatsDelta (priority : Int) (d : StatsDelta) : Except Fault (RegistryShard α) :=
  match s.priorityBands.lookup priority with
  | none => .error .missingBand
  | some band =>
    .ok { s with
      priorityBands := s.priorityBands.insert priority { band with len := band.len + d.len, byteSize := band.byteSize + d.byteSize }
      totalLen := s.totalLen + d.len
      totalByteSize := s.totalByteSize + d.byteSize }

/-- Put a queue's new state back where the queue is. -/
def setQueue (mq : ManagedQueue α) : RegistryShard α :=
  match s.priorityBands.lookup key.priority with
  | none => s
  | some band =>
    { s with priorityBands := s.priorityBands.insert key.priority { band with queues := band.queues.insert key.id mq } }

/-- The second half of an operation: the change goes to the band and the shard. -/
def propagate : Option StatsDelta → Except Fault (RegistryShard α × Option StatsDelta)
  | none => .ok (s, none)
  | some d => (s.propagateStatsDelta key.priority d).map fun s => (s, some d)

variable [QueueItemAccessor α] [DecidableEq α]

/-- An operation on the queue that `ManagedQueue(key)` returns. -/
def queueOp (s : RegistryShard α) (key : FlowKey) (op : QueueOp α) : Except Fault (RegistryShard α × Option StatsDelta) :=
  match s.managedQueue key with
  | none => .ok (s, none)
  | some mq =>
    match mq.perform s.isDraining op with
    | .error e => .error e
    | .ok (mq, d) => (s.setQueue key mq).propagate key d

/-- An operation on the `i`-th queue that the shard has deleted. -/
def detachedOp (s : RegistryShard α) (i : Nat) (op : QueueOp α) : Except Fault (RegistryShard α × Option StatsDelta) :=
  match s.detached[i]? with
  | none => .ok (s, none)
  | some mq =>
    match mq.perform s.isDraining op with
    | .error e => .error e
    | .ok (mq', d) => { s with detached := s.detached.set i mq' }.propagate mq.key d

end RegistryShard

end InferenceGateway.Registry
