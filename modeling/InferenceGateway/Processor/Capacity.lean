import InferenceGateway.Registry.Stats
/-!
# Capacity

The part of `enqueue`, `dispatchItem` and `sweepFinalizedItems` that touches the
queues and counters of the shard, with `hasCapacity`, in atomic steps: a queue is
changed under its lock, and the counters of the shard are read and changed one at
a time. The processor's goroutine does one thing after the other; any number of
sweep workers run beside it.

The sweep may find any item finalized, so a request can expire at any time. That
the lock of a queue is held until the counters are through is left out here: it
only takes interleavings away.
-/

namespace InferenceGateway.Processor

open Lib Queue Registry RegistryShard

def hasCapacity (stats : ShardStats) (priority : Int) (itemByteSize : UInt64) : Bool :=
  if stats.totalCapacityBytes > 0 ∧ stats.totalByteSize + itemByteSize > stats.totalCapacityBytes then false
  else if stats.totalCapacityRequests > 0 ∧ stats.totalLen + 1 > stats.totalCapacityRequests then false
  else
    match stats.perPriorityBandStats.lookup priority with
    | none => false
    | some bandStats =>
      if bandStats.capacityBytes > 0 ∧ bandStats.byteSize + itemByteSize > bandStats.capacityBytes then false
      else if bandStats.capacityRequests > 0 ∧ bandStats.len + 1 > bandStats.capacityRequests then false
      else true

/-- The additions that a call of `propagateStatsDelta` has still to make. -/
abbrev Propagation := List (Counter × Int64)

/-- What the processor is doing. -/
inductive Work (α : Type) where
  | idle
  /-- `enqueue` has the item. -/
  | looking (key : FlowKey) (x : α)
  /-- In `Stats`: what has been read, and what is still to be read. -/
  | reading (key : FlowKey) (x : α) (seen : Counter → Option UInt64) (rest : List Counter)
  /-- `hasCapacity` has said yes. -/
  | admitted (key : FlowKey) (x : α)
  /-- In `Add`. -/
  | adding (todo : Propagation)
  /-- In `Remove`. -/
  | releasing (todo : Propagation)

structure Traffic (α : Type) where
  shard : RegistryShard α
  work : Work α
  /-- The sweep workers that are in `Cleanup`. -/
  sweeps : List Propagation
  /-- Every item that the processor has received. -/
  arrived : List α

variable {α : Type} [QueueItemAccessor α] [DecidableEq α]

namespace Traffic

/-- No request has come yet. -/
def start (shard : RegistryShard α) : Traffic α := ⟨shard, .idle, [], []⟩

inductive Step (s : Traffic α) : Traffic α → Prop where
  -- the registry makes a queue for a flow
  | synchronizeFlow (key : FlowKey) (policy : OrderingPolicy α) (name : String) (q : SafeQueue α) (shard : RegistryShard α)
      (hq : newQueueFromName name policy = some q) (h : s.shard.synchronizeFlow key policy q = .ok shard) :
      Step s { s with shard := shard }
  -- enqueue
  | receive (key : FlowKey) (x : α) (hw : s.work = .idle) (hx : x ∉ s.arrived) :
      Step s { s with work := .looking key x, arrived := x :: s.arrived }
  -- the item is finalized already, or its flow has no queue
  | discard (key : FlowKey) (x : α) (hw : s.work = .looking key x) : Step s { s with work := .idle }
  | check (key : FlowKey) (x : α) (hw : s.work = .looking key x) (hq : (s.shard.managedQueue key).isSome) :
      Step s { s with work := .reading key x (fun _ => none) s.shard.statsReads }
  | read (key : FlowKey) (x : α) (seen : Counter → Option UInt64) (c : Counter) (rest : List Counter)
      (hw : s.work = .reading key x seen (c :: rest)) :
      Step s { s with work := .reading key x (Function.update seen c (some (s.shard.counter c).toUInt64)) rest }
  | reject (key : FlowKey) (x : α) (seen : Counter → Option UInt64) (hw : s.work = .reading key x seen [])
      (h : hasCapacity (s.shard.stats fun c => (seen c).getD 0) key.priority (QueueItemAccessor.byteSize x) = false) :
      Step s { s with work := .idle }
  | approve (key : FlowKey) (x : α) (seen : Counter → Option UInt64) (hw : s.work = .reading key x seen [])
      (h : hasCapacity (s.shard.stats fun c => (seen c).getD 0) key.priority (QueueItemAccessor.byteSize x) = true) :
      Step s { s with work := .admitted key x }
  | addRefused (key : FlowKey) (x : α) (mq mq' : ManagedQueue α) (hw : s.work = .admitted key x)
      (hq : s.shard.managedQueue key = some mq) (h : mq.add s.shard.isDraining x = .ok (mq', none)) :
      Step s { s with work := .idle }
  | add (key : FlowKey) (x : α) (mq mq' : ManagedQueue α) (d : StatsDelta) (hw : s.work = .admitted key x)
      (hq : s.shard.managedQueue key = some mq) (h : mq.add s.shard.isDraining x = .ok (mq', some d)) :
      Step s { s with
        shard := s.shard.setQueue key mq', work := .adding (statsWrites key.priority d) }
  | addWrites (c : Counter) (d : Int64) (rest : Propagation) (hw : s.work = .adding ((c, d) :: rest)) :
      Step s { s with shard := s.shard.addCounter c d, work := .adding rest }
  | added (hw : s.work = .adding []) : Step s { s with work := .idle }
  -- dispatchItem
  | dispatch (key : FlowKey) (handle : QueueItemHandle) (mq mq' : ManagedQueue α) (d : StatsDelta) (hw : s.work = .idle)
      (hq : s.shard.managedQueue key = some mq) (h : mq.remove handle = .ok (mq', some d)) :
      Step s { s with
        shard := s.shard.setQueue key mq', work := .releasing (statsWrites key.priority d) }
  | dispatchWrites (c : Counter) (d : Int64) (rest : Propagation) (hw : s.work = .releasing ((c, d) :: rest)) :
      Step s { s with shard := s.shard.addCounter c d, work := .releasing rest }
  | dispatched (hw : s.work = .releasing []) : Step s { s with work := .idle }
  -- sweepFinalizedItems
  | sweep (key : FlowKey) (predicate : α → Bool) (mq mq' : ManagedQueue α) (d : Option StatsDelta)
      (hq : s.shard.managedQueue key = some mq) (h : mq.cleanup predicate = .ok (mq', d)) :
      Step s { s with
        shard := s.shard.setQueue key mq'
        sweeps := (d.map (statsWrites key.priority)).toList ++ s.sweeps }
  | sweepWrites (before after : List Propagation) (c : Counter) (d : Int64) (rest : Propagation)
      (hs : s.sweeps = before ++ ((c, d) :: rest) :: after) :
      Step s { s with shard := s.shard.addCounter c d, sweeps := before ++ rest :: after }
  | swept (before after : List Propagation) (hs : s.sweeps = before ++ [] :: after) :
      Step s { s with sweeps := before ++ after }

abbrev Run : Traffic α → Traffic α → Prop := Relation.ReflTransGen Step

end Traffic

end InferenceGateway.Processor
