import InferenceGateway.Lib.Panics
import InferenceGateway.Queue.ListQueue
import InferenceGateway.Queue.HeapCleanup
/-!
# The queues by name

`factory.go` and the `SafeQueue` contract of `contracts/queue.go`. The two
registered queues are one type here, and the contract is four laws about what
the queue contains: whatever comes on top of a queue uses these and never looks
at a queue's inside.
-/

namespace InferenceGateway.Queue

inductive QueueCapability where
  | fifo
  | priorityConfigurable
deriving DecidableEq, Repr

/-- What is used of an ordering policy, a plugin. -/
structure OrderingPolicy (α : Type) where
  typedName : String
  less : α → α → Bool
  requiredQueueCapabilities : List QueueCapability

def listQueueName : String := "ListQueue"

def maxMinHeapName : String := "MaxMinHeap"

inductive SafeQueue (α : Type) where
  | listQueue (q : ListQueue α)
  | maxMinHeap (h : MaxMinHeap α)

/-- `NewQueueFromName`, over the queues that register themselves. -/
def newQueueFromName {α : Type} (name : String) (policy : OrderingPolicy α) : Option (SafeQueue α) :=
  if name = listQueueName then some (.listQueue .newListQueue)
  else if name = maxMinHeapName then some (.maxMinHeap (.newMaxMinHeap policy.less))
  else none

namespace SafeQueue

variable {α : Type}

def capabilities : SafeQueue α → List QueueCapability
  | listQueue _ => [.fifo]
  | maxMinHeap _ => [.priorityConfigurable]

/-- The items in the queue. -/
def items : SafeQueue α → List α
  | listQueue q => q.items
  | maxMinHeap h => h.items

def len (q : SafeQueue α) : Nat := q.items.length

def peekHead : SafeQueue α → Option α
  | listQueue q => q.peekHead
  | maxMinHeap h => h.peekHead

variable [QueueItemAccessor α]

def add [DecidableEq α] (x : α) : SafeQueue α → SafeQueue α
  | listQueue q => .listQueue (q.add x)
  | maxMinHeap h => .maxMinHeap (h.add x)

def remove (handle : QueueItemHandle) : SafeQueue α → Except QueueError (α × SafeQueue α)
  | listQueue q => (q.remove handle).map fun r => (r.1, .listQueue r.2)
  | maxMinHeap h => (h.remove handle).map fun r => (r.1, .maxMinHeap r.2)

def cleanup (predicate : α → Bool) : SafeQueue α → List α × SafeQueue α
  | listQueue q => ((q.cleanup predicate).1, .listQueue (q.cleanup predicate).2)
  | maxMinHeap h => ((h.cleanup predicate).1, .maxMinHeap (h.cleanup predicate).2)

def drain : SafeQueue α → List α × SafeQueue α
  | listQueue q => (q.drain.1, .listQueue q.drain.2)
  | maxMinHeap h => (h.drain.1, .maxMinHeap h.drain.2)

/-- The queue's handles and items are in step. -/
def Ok : SafeQueue α → Prop
  | listQueue q => q.Synced
  | maxMinHeap h => h.Synced

variable {q : SafeQueue α}

theorem newQueueFromName_ok {name : String} {policy : OrderingPolicy α} (h : newQueueFromName name policy = some q) :
    q.Ok ∧ q.items = [] := by
  unfold newQueueFromName at h
  split at h
  · rw [Option.some.injEq] at h
    subst h
    exact ⟨ListQueue.newListQueue_synced, rfl⟩
  · split at h
    · rw [Option.some.injEq] at h
      subst h
      exact ⟨MaxMinHeap.newMaxMinHeap_synced policy.less, rfl⟩
    · cases h

/-! ## The contract -/

section Add
variable [DecidableEq α]

theorem add_ok {q : SafeQueue α} (hq : q.Ok) {x : α} (hx : x ∉ q.items) :
    (q.add x).Ok ∧ (q.add x).items.Perm (x :: q.items) := by
  cases q with
  | listQueue q =>
    refine ⟨ListQueue.add_synced hq hx, ?_⟩
    change (q.add x).items.Perm (x :: q.items)
    rw [ListQueue.add_items]
    exact List.perm_append_singleton x q.items
  | maxMinHeap h => exact ⟨MaxMinHeap.add_synced hq hx, MaxMinHeap.add_perm h x⟩

end Add

theorem remove_ok {q' : SafeQueue α} (hq : q.Ok) {handle : QueueItemHandle} {x : α} (h : q.remove handle = .ok (x, q')) :
    q'.Ok ∧ q.items.Perm (x :: q'.items) := by
  cases q with
  | listQueue q =>
    obtain ⟨⟨y, r⟩, hr, he⟩ := Lib.map_ok h
    rw [Prod.mk.injEq] at he
    obtain ⟨rfl, rfl⟩ := he
    exact ListQueue.remove_ok hq hr
  | maxMinHeap q =>
    obtain ⟨⟨y, r⟩, hr, he⟩ := Lib.map_ok h
    rw [Prod.mk.injEq] at he
    obtain ⟨rfl, rfl⟩ := he
    exact MaxMinHeap.remove_ok hq hr

theorem cleanup_ok (hq : q.Ok) (predicate : α → Bool) :
    (q.cleanup predicate).2.Ok ∧ (q.cleanup predicate).1 = q.items.filter predicate ∧
      (q.cleanup predicate).2.items.Perm (q.items.filter (fun x => !predicate x)) := by
  cases q with
  | listQueue q =>
    obtain ⟨h1, h2, h3⟩ := ListQueue.cleanup_synced hq predicate
    exact ⟨h1, h2, .of_eq h3⟩
  | maxMinHeap h => exact MaxMinHeap.cleanup_synced hq predicate

/-- What `Cleanup` returns, whatever state the handles are in. -/
theorem cleanup_removed (q : SafeQueue α) (predicate : α → Bool) : (q.cleanup predicate).1 = q.items.filter predicate := by
  cases q with
  | listQueue q => rfl
  | maxMinHeap h =>
    simp only [cleanup, MaxMinHeap.cleanup, items]
    split <;> rfl

omit [QueueItemAccessor α] in
theorem drain_removed (q : SafeQueue α) : q.drain.1 = q.items := by
  cases q <;> rfl

theorem drain_ok (hq : q.Ok) : q.drain.2.Ok ∧ q.drain.1 = q.items ∧ q.drain.2.items = [] := by
  cases q with
  | listQueue q => exact ListQueue.drain_synced hq
  | maxMinHeap h => exact MaxMinHeap.drain_synced hq

end SafeQueue

end InferenceGateway.Queue
