import InferenceGateway.Registry.FlowRegistry
import InferenceGateway.Registry.LeaseMap
/-!
# Connections side by side

`WithConnection`, with all it calls, and the garbage collection as goroutines that
take atomic steps in any order: any number of calls, and the one collector. A step
is one operation on a map, one critical section of a state, or one critical section
of the registry's lock. The collector holds that lock during its cleanups, which
are more than one step, as the maps can change meanwhile.

The states of flows and bands are objects here, so `registry` is used for everything
else: its own two tables of states are not looked at.
-/

namespace InferenceGateway.Registry

open Lib Queue Function

/-- What a call of `WithConnection` has in its hands. -/
structure Conn where
  key : FlowKey
  state : Nat
  isNewFlow : Bool
  /-- The argument of the deferred `unpin`, which is evaluated where it is deferred. -/
  since : Int
deriving DecidableEq

/-- Where a call is that has its leases. -/
inductive ConnPhase where
  /-- At `initialized.Do`. -/
  | initializing
  /-- In `ensureFlowInfrastructure`: is the band there? -/
  | looking
  /-- At `ensurePriorityBand`. -/
  | ensuring
  /-- About to build the components and to synchronize the shards. -/
  | synchronizing
  /-- There is an `initErr`: the flow is about to be deleted from the map. -/
  | failing
  | loadingBand
  | unpinningBand (b : Nat)
  /-- In the callback. -/
  | running
  /-- At the deferred `unpin`. -/
  | leaving
deriving DecidableEq

/-- Where a call of `WithConnection` is. -/
inductive Call where
  | idle
  | pinningFlow (key : FlowKey) (p : Pinning)
  | pinningBand (key : FlowKey) (o : Nat) (p : Pinning)
  | connected (c : Conn) (phase : ConnPhase)
deriving DecidableEq

/-- The `sync.Once` of a flow's state, and whether `initErr` is `nil` after it. -/
inductive Init where
  | fresh
  | running
  | done (ok : Bool)
deriving DecidableEq

/-- Where the collector is. -/
inductive Cycle where
  | idle
  /-- `gcFlows`. -/
  | flows (c : Collecting FlowKey)
  /-- About to release the band leases of the flows found. -/
  | releasing (todo : List (FlowKey × Nat)) (keysToClean : List FlowKey)
  /-- It has loaded the band's state for the first of them. -/
  | unpinning (b : Nat) (x : FlowKey × Nat) (todo : List (FlowKey × Nat)) (keysToClean : List FlowKey)
  /-- `cleanupFlowResources`, with the lock. -/
  | cleaningFlows (keys : List FlowKey)
  | deletingFlow (key : FlowKey) (keys : List FlowKey)
  /-- `gcPriorityBands`. -/
  | bands (c : Collecting Int)
  /-- `cleanupPriorityBandResources`, with the lock. -/
  | cleaningBands (priorities : List Int)
  | deletingBand (priority : Int) (priorities : List Int)
  | sweeping
deriving DecidableEq

/-- The collector holds the registry's lock. -/
def Cycle.locked : Cycle → Bool
  | cleaningFlows _ | deletingFlow _ _ | cleaningBands _ | deletingBand _ _ => true
  | _ => false

namespace FlowRegistry

variable {α : Type}

/-- What `cleanupFlowResources` does to a flow that is gone. -/
def dropFlow (fr : FlowRegistry α) (key : FlowKey) : FlowRegistry α :=
  { fr with shards := onShards fr.allShards (·.deleteFlow key) fr.shards }

/-- What `cleanupPriorityBandResources` does to a band that is gone. -/
def dropBand (fr : FlowRegistry α) (priority : Int) : FlowRegistry α :=
  { fr with
    config := { fr.config with priorityBands := fr.config.priorityBands.erase priority }
    perPriorityBandStats := fr.perPriorityBandStats.erase priority
    shards := onShards fr.allShards (·.deletePriorityBand priority) fr.shards }

end FlowRegistry

structure Sessions (α : Type) where
  registry : FlowRegistry α
  flows : LeaseMap FlowKey
  bands : LeaseMap Int
  init : Nat → Init
  calls : Nat → Call
  /-- The number of calls begun so far. -/
  started : Nat
  gc : Cycle

inductive SessionAction where
  | connect (key : FlowKey)
  /-- The next step of a call. -/
  | call (i : Nat)
  /-- The callback of a call returns. -/
  | hangUp (i : Nat)
  /-- A cycle of the collector begins. -/
  | collect
  | visitFlow (key : FlowKey)
  | visitBand (priority : Int)
  /-- The next step of the collector; between two entries, `Range` ends. -/
  | gc
  | tick (d : Nat)

namespace Sessions

variable {α : Type}

def start (r : FlowRegistry α) : Sessions α where
  registry := r
  flows := .empty
  bands := .empty
  init := fun _ => .fresh
  calls := fun _ => .idle
  started := 0
  gc := .idle

variable (s : Sessions α)

/-- The registry as one goroutine sees it, if the others hold still. -/
def view : FlowRegistry α :=
  { s.registry with flowStates := s.flows.view, priorityBandStates := s.bands.view }

def setCall (i : Nat) (c : Call) : Sessions α := { s with calls := update s.calls i c }

/-- Where a call goes on once `pinLeasedResource` has returned the state of its flow. -/
def afterFlow (key : FlowKey) (o : Nat) (isNewFlow : Bool) : Call :=
  if isNewFlow then .pinningBand key o .loading else .connected ⟨key, o, false, s.registry.clock⟩ .initializing

/-- Where a call goes on once the `Once` has been through. -/
def afterInit (ok : Bool) : ConnPhase := if ok then .running else .failing

/-- The next step of a call that has its leases. -/
def connStep (i : Nat) (c : Conn) : ConnPhase → Except Fault (Sessions α)
  | .initializing =>
    match s.init c.state with
    | .fresh => .ok { s.setCall i (.connected c .looking) with init := update s.init c.state .running }
    | .running => .ok s
    | .done ok => .ok (s.setCall i (.connected c (afterInit ok)))
  | .looking =>
    if s.gc.locked then .ok s
    else if c.key.priority ∈ s.registry.config.priorityBands then .ok (s.setCall i (.connected c .synchronizing))
    else .ok (s.setCall i (.connected c .ensuring))
  | .ensuring =>
    if s.gc.locked then .ok s
    else if c.key.priority ∈ s.registry.config.priorityBands then .ok (s.setCall i (.connected c .synchronizing))
    else
      match s.view.ensurePriorityBand c.key.priority with
      | .error e => .error e
      | .ok r =>
        .ok { s.setCall i (.connected c .synchronizing) with
          registry := r, bands := (s.bands.loadOrStore c.key.priority).1 }
  | .synchronizing =>
    if s.gc.locked then .ok s
    else
      match s.view.synchronizeShards c.key with
      | .error e => .error e
      | .ok (r, ok) =>
        .ok { s.setCall i (.connected c (afterInit ok)) with
          registry := r, init := update s.init c.state (.done ok) }
  | .failing =>
    .ok { s.setCall i (.connected c (if c.isNewFlow then .loadingBand else .leaving)) with flows := s.flows.delete c.key }
  | .loadingBand =>
    match s.bands.load c.key.priority with
    | some b => .ok (s.setCall i (.connected c (.unpinningBand b)))
    | none => .ok (s.setCall i (.connected c .leaving))
  | .unpinningBand b =>
    .ok { s.setCall i (.connected c .leaving) with bands := s.bands.unpin b s.registry.clock }
  | .running => .ok s
  | .leaving => .ok { s.setCall i .idle with flows := s.flows.unpin c.state c.since }

def callStep (i : Nat) : Call → Except Fault (Sessions α)
  | .idle => .ok s
  | .pinningFlow key p =>
    match p.step s.flows key s.registry.clock with
    | (flows, .inl p) => .ok { s.setCall i (.pinningFlow key p) with flows := flows }
    | (flows, .inr (o, isNewFlow)) => .ok { s.setCall i (s.afterFlow key o isNewFlow) with flows := flows }
  | .pinningBand key o p =>
    match p.step s.bands key.priority s.registry.clock with
    | (bands, .inl p) => .ok { s.setCall i (.pinningBand key o p) with bands := bands }
    | (bands, .inr _) =>
      .ok { s.setCall i (.connected ⟨key, o, true, s.registry.clock⟩ .initializing) with bands := bands }
  | .connected c phase => s.connStep i c phase

def gcStep : Cycle → Sessions α
  | .idle => s
  | .flows (.ranging _ found) => { s with gc := .releasing found (found.map Prod.fst) }
  | .flows c =>
    { s with
      flows := (c.step s.flows s.registry.config.flowGCTimeout).1
      gc := .flows (c.step s.flows s.registry.config.flowGCTimeout).2 }
  | .releasing [] keys => { s with gc := .cleaningFlows keys }
  | .releasing (x :: todo) keys =>
    match s.bands.load x.1.priority with
    | some b => { s with gc := .unpinning b x todo keys }
    | none => { s with gc := .releasing todo keys }
  | .unpinning b _ todo keys => { s with bands := s.bands.unpin b s.registry.clock, gc := .releasing todo keys }
  | .cleaningFlows [] => { s with gc := .bands (.ranging s.registry.clock []) }
  | .cleaningFlows (key :: keys) =>
    match s.flows.load key with
    | some _ => { s with gc := .cleaningFlows keys }
    | none => { s with gc := .deletingFlow key keys }
  | .deletingFlow key keys => { s with registry := s.registry.dropFlow key, gc := .cleaningFlows keys }
  | .bands (.ranging _ found) => { s with gc := .cleaningBands (found.map Prod.fst) }
  | .bands c =>
    { s with
      bands := (c.step s.bands s.registry.config.priorityBandGCTimeout).1
      gc := .bands (c.step s.bands s.registry.config.priorityBandGCTimeout).2 }
  | .cleaningBands [] => { s with gc := .sweeping }
  | .cleaningBands (p :: ps) =>
    match s.bands.load p with
    | some _ => { s with gc := .cleaningBands ps }
    | none => { s with gc := .deletingBand p ps }
  | .deletingBand p ps => { s with registry := s.registry.dropBand p, gc := .cleaningBands ps }
  | .sweeping => { s with registry := s.view.sweepDrainingShards, gc := .idle }

/-- One atomic step; an action that is not possible changes nothing. -/
def step : SessionAction → Except Fault (Sessions α)
  | .connect key =>
    if key.id = "" then .ok s
    else .ok { s.setCall s.started (.pinningFlow key .loading) with started := s.started + 1 }
  | .call i => s.callStep i (s.calls i)
  | .hangUp i =>
    match s.calls i with
    | .connected c .running => .ok (s.setCall i (.connected c .leaving))
    | _ => .ok s
  | .collect =>
    match s.gc with
    | .idle => .ok { s with gc := .flows (.ranging s.registry.clock []) }
    | _ => .ok s
  | .visitFlow key =>
    match s.gc with
    | .flows c => .ok { s with gc := .flows (c.visit s.flows key) }
    | _ => .ok s
  | .visitBand p =>
    match s.gc with
    | .bands c => .ok { s with gc := .bands (c.visit s.bands p) }
    | _ => .ok s
  | .gc => .ok (s.gcStep s.gc)
  | .tick d => .ok { s with registry := { s.registry with clock := s.registry.clock + d } }

end Sessions

end InferenceGateway.Registry
