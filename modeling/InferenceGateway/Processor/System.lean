import InferenceGateway.Processor.FlowItem
/-!
# A shard processor and its requests

`processor.go` with the part of `controller.go` that talks to it, as goroutines
that take atomic steps in any order: any number of `EnqueueAndWait` calls, the
processor's loop with its shutdown, the workers of the eviction, and the sweep.

Items are numbers. `queued` has the items of all queues of the shard, as their
order and their flows do not matter here: which item is dispatched, whether an
item finds capacity, and when a context ends are left open. A call of
`EnqueueAndWait` tries any number of candidates; those that refuse the item leave
no trace.
-/

namespace InferenceGateway.Processor

open Function

/-- Where the goroutine of `Run` goes on after a finalization. -/
inductive Next where
  | loop
  | dispatching
  | draining

/-- Where the goroutine of `Run` is. -/
inductive Phase where
  /-- At the `select` of the loop. -/
  | loop
  /-- `enqueue` has received the item. -/
  | enqueue (x : Nat)
  /-- `enqueue` has seen that the item is not finalized. -/
  | admitting (x : Nat)
  | dispatching
  /-- `dispatchItem` is about to remove the item. -/
  | removing (x : Nat)
  | finalizing (j : Job) (next : Next)
  /-- `shutdown`, before the flag is set. -/
  | stopping
  | draining
  | evicting
  /-- At `wg.Wait()`. -/
  | waiting
  | returned

def Next.phase : Next → Phase
  | loop => .loop
  | dispatching => .dispatching
  | draining => .draining

/-- Where a call of `EnqueueAndWait` is. -/
inductive RequestPhase where
  /-- At the head of the distribution loop. -/
  | start
  | distributing (x : Nat)
  /-- `Submit` or `SubmitOrBlock`, past the check of the flag. -/
  | sending (x : Nat)
  /-- Finalizing its own item; `waited` tells `awaitFinalization` from a failed distribution. -/
  | finalizing (j : Job) (waited : Bool)
  | loading (x : Nat) (waited : Bool)
  /-- At the `select` of `awaitFinalization`. -/
  | awaiting (x : Nat)
  | returned (fs : FinalState) (x : Option Nat)

structure System where
  items : Nat → FlowItem
  /-- The next item to be allocated. -/
  next : Nat
  enqueueChan : List Nat
  queued : List Nat
  isShuttingDown : Bool
  /-- The controller's context is done. -/
  parentDone : Bool
  /-- The processor's context is done. -/
  lifecycleDone : Bool
  /-- The sweep goroutine has not returned. -/
  sweeping : Bool
  processor : Phase
  evictions : Nat → Option Job
  requests : Nat → RequestPhase
  /-- The items for which `Submit` or `SubmitOrBlock` has returned `nil`. -/
  accepted : List Nat

def System.init : System where
  items := fun _ => newItem
  next := 0
  enqueueChan := []
  queued := []
  isShuttingDown := false
  parentDone := false
  lifecycleDone := false
  sweeping := true
  processor := .loop
  evictions := fun _ => none
  requests := fun _ => .start
  accepted := []

namespace System

def setItem (s : System) (x : Nat) (it : FlowItem) : System := { s with items := update s.items x it }

def setRequest (s : System) (i : Nat) (p : RequestPhase) : System :=
  { s with requests := update s.requests i p }

/-- A submit call hands over its item and returns `nil`. -/
def accept (s : System) (i x : Nat) : System := { s.setRequest i (.awaiting x) with accepted := x :: s.accepted }

end System

/-- `EnqueueAndWait` with the final state of its item: once more for a shard that
has begun to drain, and the result otherwise. -/
def settle (fs : FinalState) (x : Nat) (waited : Bool) : RequestPhase :=
  if waited && fs.err.contains .shardDraining then .start else .returned fs (some x)

/-- What `tryDistribution` does with an item nobody has taken. -/
inductive Refusal : FinalizeCall → Prop where
  | noShards : Refusal (.finalizeWithOutcome ⟨.rejectedCapacity, [.rejected, .noShards]⟩)
  | contextDone (cause : Err) : Refusal (.finalize cause)
  | notAccepted (err : Err) : Refusal (.finalizeWithOutcome ⟨.rejectedOther, .rejected :: err⟩)

/-- What `enqueue` does with an item it does not admit. -/
inductive Rejection : FinalState → Prop where
  | configuration : Rejection ⟨.rejectedOther, [.rejected, .configuration]⟩
  | capacity : Rejection ⟨.rejectedCapacity, [.rejected, .queueAtCapacity]⟩
  | draining : Rejection ⟨.rejectedOther, [.rejected, .shardDraining]⟩

def dispatchCall : FinalizeCall := .finalizeWithOutcome ⟨.dispatched, []⟩

/-- What `shutdown` does with the items it finds in the channel. -/
def drainCall : FinalizeCall := .finalizeWithOutcome ⟨.rejectedOther, [.rejected, .notRunning]⟩

/-- What `evictAll` does with the items it finds in the queues. -/
def evictCall : FinalizeCall := .finalizeWithOutcome ⟨.evictedOther, [.evicted, .notRunning]⟩

/-- One atomic step of one goroutine; `cap` is the size of the channel's buffer. -/
inductive Step (cap : Nat) (s : System) : System → Prop where
  -- contexts
  | cancelParent : Step cap s { s with parentDone := true }
  | cancelProcessor : Step cap s { s with lifecycleDone := true }
  -- EnqueueAndWait
  | giveUp (i : Nat) (h : s.requests i = .start) (hp : s.parentDone = true) :
      Step cap s (s.setRequest i (.returned ⟨.rejectedOther, [.rejected, .notRunning]⟩ none))
  | create (i : Nat) (h : s.requests i = .start) (hp : s.parentDone = false) :
      Step cap s { (s.setItem s.next newItem).setRequest i (.distributing s.next) with next := s.next + 1 }
  | distributionFails (i x : Nat) (call : FinalizeCall) (hc : Refusal call) (h : s.requests i = .distributing x) :
      Step cap s (s.setRequest i (.finalizing (.start x call) false))
  | check (i x : Nat) (h : s.requests i = .distributing x) (hf : s.isShuttingDown = false) :
      Step cap s (s.setRequest i (.sending x))
  | refused (i x : Nat) (h : s.requests i = .sending x) : Step cap s (s.setRequest i (.distributing x))
  | send (i x : Nat) (h : s.requests i = .sending x) (hc : s.enqueueChan.length < cap) :
      Step cap s { s.accept i x with enqueueChan := s.enqueueChan ++ [x] }
  -- a receiver that is waiting takes the item without the buffer
  | handOver (i x : Nat) (h : s.requests i = .sending x) (hc : s.enqueueChan = []) (hp : s.processor = .loop) :
      Step cap s { s.accept i x with processor := .enqueue x }
  | handOverDraining (i x : Nat) (h : s.requests i = .sending x) (hc : s.enqueueChan = [])
      (hp : s.processor = .draining) :
      Step cap s { s.accept i x with processor := .finalizing (.start x drainCall) .draining }
  | expire (i x : Nat) (cause : Err) (h : s.requests i = .awaiting x) :
      Step cap s (s.setRequest i (.finalizing (.start x (.finalize cause)) true))
  | receive (i x : Nat) (fs : FinalState) (h : s.requests i = .awaiting x) (hd : (s.items x).done = some fs) :
      Step cap s (s.setRequest i (settle fs x true))
  | requestRuns (i : Nat) (j j' : Job) (w : Bool) (it : FlowItem) (h : s.requests i = .finalizing j w)
      (hr : j.run (.request i) (s.items j.item) = some (it, some j')) :
      Step cap s ((s.setItem j.item it).setRequest i (.finalizing j' w))
  | requestRan (i : Nat) (j : Job) (w : Bool) (it : FlowItem) (h : s.requests i = .finalizing j w)
      (hr : j.run (.request i) (s.items j.item) = some (it, none)) :
      Step cap s ((s.setItem j.item it).setRequest i (.loading j.item w))
  | load (i x : Nat) (w : Bool) (fs : FinalState) (h : s.requests i = .loading x w)
      (hf : (s.items x).finalState = some fs) : Step cap s (s.setRequest i (settle fs x w))
  -- Run
  | take (x : Nat) (rest : List Nat) (h : s.processor = .loop) (hc : s.enqueueChan = x :: rest) :
      Step cap s { s with enqueueChan := rest, processor := .enqueue x }
  | tick (h : s.processor = .loop) : Step cap s { s with processor := .dispatching }
  | stop (h : s.processor = .loop) (hd : s.lifecycleDone = true) : Step cap s { s with processor := .stopping }
  -- enqueue
  | discard (x : Nat) (h : s.processor = .enqueue x) (hf : (s.items x).finalState.isSome) :
      Step cap s { s with processor := .dispatching }
  | look (x : Nat) (h : s.processor = .enqueue x) (hf : (s.items x).finalState = none) :
      Step cap s { s with processor := .admitting x }
  | reject (x : Nat) (fs : FinalState) (hr : Rejection fs) (h : s.processor = .admitting x) :
      Step cap s { s with processor := .finalizing (.start x (.finalizeWithOutcome fs)) .dispatching }
  | add (x : Nat) (h : s.processor = .admitting x) :
      Step cap s { s.setItem x { s.items x with handle := true } with
        queued := s.queued ++ [x], processor := .dispatching }
  -- dispatchCycle and dispatchItem
  | select (x : Nat) (h : s.processor = .dispatching) (hx : x ∈ s.queued) :
      Step cap s { s with processor := .removing x }
  | cycleEnds (h : s.processor = .dispatching) : Step cap s { s with processor := .loop }
  | remove (x : Nat) (h : s.processor = .removing x) (hx : x ∈ s.queued) :
      Step cap s { s with queued := s.queued.erase x, processor := .finalizing (.start x dispatchCall) .loop }
  | removeFails (x : Nat) (h : s.processor = .removing x) (hx : x ∉ s.queued) :
      Step cap s { s with processor := .loop }
  | processorRuns (j j' : Job) (next : Next) (it : FlowItem) (h : s.processor = .finalizing j next)
      (hr : j.run .processor (s.items j.item) = some (it, some j')) :
      Step cap s { s.setItem j.item it with processor := .finalizing j' next }
  | processorRan (j : Job) (next : Next) (it : FlowItem) (h : s.processor = .finalizing j next)
      (hr : j.run .processor (s.items j.item) = some (it, none)) :
      Step cap s { s.setItem j.item it with processor := next.phase }
  -- shutdown and evictAll
  | setFlag (h : s.processor = .stopping) : Step cap s { s with isShuttingDown := true, processor := .draining }
  | drain (x : Nat) (rest : List Nat) (h : s.processor = .draining) (hc : s.enqueueChan = x :: rest) :
      Step cap s { s with enqueueChan := rest, processor := .finalizing (.start x drainCall) .draining }
  | drained (h : s.processor = .draining) (hc : s.enqueueChan = []) : Step cap s { s with processor := .evicting }
  | evict (x : Nat) (h : s.processor = .evicting) (hx : x ∈ s.queued) :
      Step cap s { s with
        queued := s.queued.erase x, evictions := update s.evictions x (some (.start x evictCall)) }
  | evictionRuns (x : Nat) (j j' : Job) (it : FlowItem) (h : s.evictions x = some j)
      (hr : j.run (.eviction x) (s.items j.item) = some (it, some j')) :
      Step cap s { s.setItem j.item it with evictions := update s.evictions x (some j') }
  | evictionRan (x : Nat) (j : Job) (it : FlowItem) (h : s.evictions x = some j)
      (hr : j.run (.eviction x) (s.items j.item) = some (it, none)) :
      Step cap s { s.setItem j.item it with evictions := update s.evictions x none }
  | evicted (h : s.processor = .evicting) (hq : s.queued = []) (he : ∀ x, s.evictions x = none) :
      Step cap s { s with processor := .waiting }
  | return (h : s.processor = .waiting) (hs : s.sweeping = false) : Step cap s { s with processor := .returned }
  -- the sweep
  | sweep (x : Nat) (hs : s.sweeping = true) (hx : x ∈ s.queued) (hf : (s.items x).finalState.isSome) :
      Step cap s { s with queued := s.queued.erase x }
  | sweepEnds (hd : s.lifecycleDone = true) : Step cap s { s with sweeping := false }

end InferenceGateway.Processor
