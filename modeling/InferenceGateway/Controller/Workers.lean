import Mathlib
/-!
# Workers

`controller.go`: calls of `EnqueueAndWait` start a worker for each active shard they find
without one and hand their item to a worker; the supervisor stops the workers whose shards
are gone from the registry. Requests, the processors of the workers, the registry and the
supervisor take their steps in any order. The controller's own context is not done.

A call has one item at a time, so items go by the number of their call. An item is in the
hands of the call, of a worker, which has it in its channel or has taken it, or in the
queues of a shard. A call that gives up on its item leaves it where it is.
-/

namespace InferenceGateway.Controller

open Function

/-- How a call ends. -/
inductive Ending where
  | dispatched
  /-- With `ErrFlowControllerNotRunning`. -/
  | notRunning
  | other
deriving DecidableEq, Repr

/-- Where a call of `EnqueueAndWait` is. -/
inductive CallPhase where
  /-- At the head of the distribution loop. -/
  | start
  /-- `selectDistributionCandidates`: the shards to look at, and the workers it has. -/
  | selecting (shards candidates : List Nat)
  /-- `distributeRequest`: the candidates that have not been tried, and all of them. -/
  | distributing (todo candidates : List Nat)
  /-- `Submit`, past the check of the flag. -/
  | submitting (w : Nat) (todo candidates : List Nat)
  /-- `SubmitOrBlock`, past the check of the flag. -/
  | blocking (w : Nat)
  | awaiting
  | returned (e : Ending)
deriving DecidableEq, Repr

/-- Where the goroutine of a worker's processor is. -/
inductive WorkerPhase where
  /-- In the loop of `Run`, with no item in hand. -/
  | running
  /-- `enqueue` has received the item. -/
  | enqueueing (i : Nat)
  /-- `Add` has seen that the shard is not draining. -/
  | adding (i : Nat)
  /-- `shutdown`, with the flag set. -/
  | draining
  | evicting
  | returned
deriving DecidableEq, Repr

structure Worker where
  shard : Nat
  /-- Its context is done. -/
  cancelled : Bool
  phase : WorkerPhase
  enqueueChan : List Nat
deriving DecidableEq, Repr

def WorkerPhase.isShuttingDown : WorkerPhase → Bool
  | draining | evicting | returned => true
  | _ => false

/-- Where `reconcileProcessors` is, with the shards that `ShardStats` has returned. -/
inductive Supervisor where
  | idle
  | ranging (seen : List Nat)
  /-- The worker of this shard is cancelled and not yet deleted from the map. -/
  | deleting (seen : List Nat) (id : Nat)
deriving DecidableEq, Repr

structure FlowController where
  -- the registry
  activeShards : List Nat
  drainingShards : List Nat
  nextShardID : Nat
  /-- The items that each shard holds and counts. -/
  queues : Nat → List Nat
  -- the controller
  /-- The map from shards to workers. -/
  workers : Nat → Option Nat
  /-- Every worker that was started. -/
  objects : Nat → Worker
  started : Nat
  supervisor : Supervisor
  calls : Nat → CallPhase

namespace FlowController

def init : FlowController where
  activeShards := []
  drainingShards := []
  nextShardID := 0
  queues := fun _ => []
  workers := fun _ => none
  objects := fun _ => ⟨0, false, .returned, []⟩
  started := 0
  supervisor := .idle
  calls := fun _ => .start

variable (s : FlowController)

def setCall (i : Nat) (p : CallPhase) : FlowController :=
  { s with calls := update s.calls i p }

def setWorker (w : Nat) (o : Worker) : FlowController :=
  { s with objects := update s.objects w o }

def setQueue (id : Nat) (items : List Nat) : FlowController :=
  { s with queues := update s.queues id items }

/-- The item of the call is finalized; the first one to do so decides. -/
def finalize (i : Nat) (p : CallPhase) : FlowController :=
  match s.calls i with
  | .awaiting => s.setCall i p
  | _ => s

/-- A new worker for the shard, in the map. -/
def startWorker (id : Nat) : FlowController :=
  { s with
    objects := update s.objects s.started ⟨id, false, .running, []⟩
    workers := update s.workers id (some s.started)
    started := s.started + 1 }

end FlowController

/-- The worker that a call is offering its item to. -/
def CallPhase.offers : CallPhase → Option Nat
  | submitting w _ _ => some w
  | blocking w => some w
  | _ => none

/-- One atomic step; `cap` is the size of the buffer of the workers' channels. -/
inductive Step (cap : Nat) (s : FlowController) : FlowController → Prop where
  -- the registry
  | scaleUp (n : Nat) (hn : 0 < n) : Step cap s { s with
      activeShards := s.activeShards ++ List.range' s.nextShardID n, nextShardID := s.nextShardID + n }
  | scaleDown (n : Nat) (hn : 0 < n) : Step cap s { s with
      activeShards := s.activeShards.take n, drainingShards := s.drainingShards ++ s.activeShards.drop n }
  | sweepDrainingShards : Step cap s { s with drainingShards := s.drainingShards.filter fun id => s.queues id ≠ [] }
  -- reconcileProcessors
  | shardStats (h : s.supervisor = .idle) :
      Step cap s { s with supervisor := .ranging (s.activeShards ++ s.drainingShards) }
  | cancel (seen : List Nat) (id w : Nat) (h : s.supervisor = .ranging seen) (hw : s.workers id = some w)
      (hid : id ∉ seen) : Step cap s { s.setWorker w { s.objects w with cancelled := true } with
        supervisor := .deleting seen id }
  | delete (seen : List Nat) (id : Nat) (h : s.supervisor = .deleting seen id) :
      Step cap s { s with workers := update s.workers id none, supervisor := .ranging seen }
  | reconciled (seen : List Nat) (h : s.supervisor = .ranging seen) : Step cap s { s with supervisor := .idle }
  -- selectDistributionCandidates; a shard that has no queue for the flow is passed over
  | activeShards (i : Nat) (h : s.calls i = .start) : Step cap s (s.setCall i (.selecting s.activeShards []))
  | getWorker (i id w : Nat) (shards candidates : List Nat) (hasQueue : Bool)
      (h : s.calls i = .selecting (id :: shards) candidates) (hw : s.workers id = some w) :
      Step cap s (s.setCall i (.selecting shards (if hasQueue then candidates ++ [w] else candidates)))
  | startWorker (i id : Nat) (shards candidates : List Nat) (hasQueue : Bool)
      (h : s.calls i = .selecting (id :: shards) candidates) (hw : s.workers id = none) :
      Step cap s ((s.startWorker id).setCall i
        (.selecting shards (if hasQueue then candidates ++ [s.started] else candidates)))
  | noShards (i : Nat) (h : s.calls i = .selecting [] []) : Step cap s (s.setCall i (.returned .other))
  | rank (i : Nat) (candidates ranked : List Nat) (h : s.calls i = .selecting [] candidates) (hne : candidates ≠ [])
      (hr : ranked.Perm candidates) : Step cap s (s.setCall i (.distributing ranked ranked))
  -- Submit
  | submitFails (i w : Nat) (todo candidates : List Nat) (h : s.calls i = .distributing (w :: todo) candidates)
      (hf : (s.objects w).phase.isShuttingDown = true) : Step cap s (s.setCall i (.distributing todo candidates))
  | submit (i w : Nat) (todo candidates : List Nat) (h : s.calls i = .distributing (w :: todo) candidates)
      (hf : (s.objects w).phase.isShuttingDown = false) : Step cap s (s.setCall i (.submitting w todo candidates))
  -- the channel is full, or the worker's context is done
  | refused (i w : Nat) (todo candidates : List Nat) (h : s.calls i = .submitting w todo candidates) :
      Step cap s (s.setCall i (.distributing todo candidates))
  -- SubmitOrBlock
  | blockFails (i w : Nat) (candidates : List Nat) (h : s.calls i = .distributing [] (w :: candidates))
      (hf : (s.objects w).phase.isShuttingDown = true) : Step cap s (s.setCall i (.returned .notRunning))
  | block (i w : Nat) (candidates : List Nat) (h : s.calls i = .distributing [] (w :: candidates))
      (hf : (s.objects w).phase.isShuttingDown = false) : Step cap s (s.setCall i (.blocking w))
  | blockCancelled (i w : Nat) (h : s.calls i = .blocking w) (hc : (s.objects w).cancelled = true) :
      Step cap s (s.setCall i (.returned .notRunning))
  | blockExpires (i w : Nat) (h : s.calls i = .blocking w) : Step cap s (s.setCall i (.returned .other))
  -- the item changes hands, through the buffer or to a receiver that is waiting
  | send (i w : Nat) (h : (s.calls i).offers = some w) (hc : (s.objects w).enqueueChan.length < cap) :
      Step cap s ((s.setWorker w { s.objects w with enqueueChan := (s.objects w).enqueueChan ++ [i] }).setCall i .awaiting)
  | handOver (i w : Nat) (h : (s.calls i).offers = some w) (hc : (s.objects w).enqueueChan = [])
      (hp : (s.objects w).phase = .running) :
      Step cap s ((s.setWorker w { s.objects w with phase := .enqueueing i }).setCall i .awaiting)
  | handOverDraining (i w : Nat) (h : (s.calls i).offers = some w) (hc : (s.objects w).enqueueChan = [])
      (hp : (s.objects w).phase = .draining) : Step cap s (s.setCall i (.returned .notRunning))
  | expire (i : Nat) (h : s.calls i = .awaiting) : Step cap s (s.setCall i (.returned .other))
  -- the processor
  | take (w i : Nat) (rest : List Nat) (hp : (s.objects w).phase = .running) (hc : (s.objects w).enqueueChan = i :: rest) :
      Step cap s (s.setWorker w { s.objects w with phase := .enqueueing i, enqueueChan := rest })
  | discard (w i : Nat) (hp : (s.objects w).phase = .enqueueing i) (hf : s.calls i ≠ .awaiting) :
      Step cap s (s.setWorker w { s.objects w with phase := .running })
  | reject (w i : Nat) (hp : (s.objects w).phase = .enqueueing i) :
      Step cap s ((s.setWorker w { s.objects w with phase := .running }).finalize i (.returned .other))
  -- a shard is marked as draining when it leaves the list; the call tries again
  | refuse (w i : Nat) (hp : (s.objects w).phase = .enqueueing i) (hd : (s.objects w).shard ∉ s.activeShards) :
      Step cap s ((s.setWorker w { s.objects w with phase := .running }).finalize i .start)
  | check (w i : Nat) (hp : (s.objects w).phase = .enqueueing i) (hd : (s.objects w).shard ∈ s.activeShards) :
      Step cap s (s.setWorker w { s.objects w with phase := .adding i })
  | add (w i : Nat) (hp : (s.objects w).phase = .adding i) :
      Step cap s ((s.setWorker w { s.objects w with phase := .running }).setQueue (s.objects w).shard
        (s.queues (s.objects w).shard ++ [i]))
  | dispatch (w i : Nat) (hp : (s.objects w).phase = .running) (hi : i ∈ s.queues (s.objects w).shard) :
      Step cap s ((s.setQueue (s.objects w).shard ((s.queues (s.objects w).shard).erase i)).finalize i (.returned .dispatched))
  | sweepFinalizedItems (w i : Nat) (hp : (s.objects w).phase ≠ .returned) (hi : i ∈ s.queues (s.objects w).shard)
      (hf : s.calls i ≠ .awaiting) :
      Step cap s (s.setQueue (s.objects w).shard ((s.queues (s.objects w).shard).erase i))
  -- shutdown
  | shutdown (w : Nat) (hp : (s.objects w).phase = .running) (hc : (s.objects w).cancelled = true) :
      Step cap s (s.setWorker w { s.objects w with phase := .draining })
  | drain (w i : Nat) (rest : List Nat) (hp : (s.objects w).phase = .draining)
      (hc : (s.objects w).enqueueChan = i :: rest) :
      Step cap s ((s.setWorker w { s.objects w with enqueueChan := rest }).finalize i (.returned .notRunning))
  | drained (w : Nat) (hp : (s.objects w).phase = .draining) (hc : (s.objects w).enqueueChan = []) :
      Step cap s (s.setWorker w { s.objects w with phase := .evicting })
  | evict (w i : Nat) (hp : (s.objects w).phase = .evicting) (hi : i ∈ s.queues (s.objects w).shard) :
      Step cap s ((s.setQueue (s.objects w).shard ((s.queues (s.objects w).shard).erase i)).finalize i (.returned .notRunning))
  | evicted (w : Nat) (hp : (s.objects w).phase = .evicting) (hq : s.queues (s.objects w).shard = []) :
      Step cap s (s.setWorker w { s.objects w with phase := .returned })

end InferenceGateway.Controller
