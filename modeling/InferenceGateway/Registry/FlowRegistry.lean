import InferenceGateway.Lib.Objects
import InferenceGateway.Registry.Leasing
import InferenceGateway.Registry.Shard
/-!
# The flow registry

`registry.go`, each exported operation as one step. Shards are objects: `shards`
holds every shard made so far under its number, and the three lists name them.
An error that the operation returns to its caller leaves the registry in the
state the operation left it in; a `Fault` stops the program.
-/

namespace InferenceGateway.Registry

open Lib Queue

structure BandStats where
  byteSize : Int64
  len : Int64
deriving DecidableEq

structure FlowRegistry (α : Type) where
  config : Config α
  clock : Int
  flowStates : Table FlowKey LeasedState
  priorityBandStates : Table Int LeasedState
  totalByteSize : Int64
  totalLen : Int64
  perPriorityBandStats : Table Int BandStats
  shards : Nat → RegistryShard α
  activeShards : List Nat
  drainingShards : List Nat
  allShards : List Nat
  nextShardID : Nat

/-- `fmt.Sprintf("shard-%04d", n)`. -/
def shardName (n : Nat) : String :=
  let digits := toString n
  "shard-" ++ String.ofList (List.replicate (4 - digits.length) '0') ++ digits

namespace FlowRegistry

variable {α : Type}

/-- A loop over shards whose body cannot fail. -/
def onShards (ids : List Nat) (f : RegistryShard α → RegistryShard α) (st : Nat → RegistryShard α) :
    Nat → RegistryShard α :=
  fun id => if id ∈ ids then f (st id) else st id

/-! ## Topology -/

variable (fr : FlowRegistry α)

/-- The shard list sorted by name. -/
def updateAllShardsCacheLocked : FlowRegistry α :=
  { fr with
    allShards := (fr.activeShards ++ fr.drainingShards).insertionSort (fun a b => shardName a ≤ shardName b) }

def repartitionShardConfigsLocked : Except Fault (FlowRegistry α) :=
  (forAll fr.activeShards (fun i s => s.updateConfig (fr.config.partition i fr.activeShards.length)) fr.shards).map
    fun shards => { fr with shards := shards }

variable (key : FlowKey)

/-- The policy and an empty queue for a flow; `none` is the error. -/
def buildFlowComponents : Option (OrderingPolicy α × SafeQueue α) :=
  (fr.config.priorityBands.lookup key.priority).bind fun bandConfig =>
    (newQueueFromName bandConfig.queue bandConfig.orderingPolicy).map fun q => (bandConfig.orderingPolicy, q)

/-- The components of every registered flow, for a new shard. -/
def buildAllComponents : Option (List (FlowKey × OrderingPolicy α × SafeQueue α)) :=
  fr.flowStates.keys.mapM fun key => (fr.buildFlowComponents key).map fun c => (key, c)

/-- The loop over all flows for one new shard. -/
def synchronizeFlows (s : RegistryShard α) : List (FlowKey × OrderingPolicy α × SafeQueue α) → Except Fault (RegistryShard α)
  | [] => .ok s
  | (key, policy, q) :: rest =>
    match s.synchronizeFlow key policy q with
    | .error e => .error e
    | .ok s => synchronizeFlows s rest

/-- The store with the shards that a scale-up to `n` makes. -/
def newShards (n : Nat) : Nat → RegistryShard α := fun id =>
  if id ∈ List.range' fr.nextShardID (n - fr.activeShards.length) then
    .newShard id (fr.config.partition (fr.activeShards.length + (id - fr.nextShardID)) n)
  else fr.shards id

def executeScaleUpLocked (newTotalActive : Nat) : Except Fault (FlowRegistry α) :=
  match fr.buildAllComponents with
  | none => .ok fr
  | some allComponents =>
    match forAll (List.range' fr.nextShardID (newTotalActive - fr.activeShards.length))
        (fun _ s => synchronizeFlows s allComponents) (fr.newShards newTotalActive) with
    | .error e => .error e
    | .ok shards =>
      ({ fr with
        shards := shards
        activeShards := fr.activeShards ++ List.range' fr.nextShardID (newTotalActive - fr.activeShards.length)
        nextShardID := fr.nextShardID + (newTotalActive - fr.activeShards.length) }.repartitionShardConfigsLocked).map
          updateAllShardsCacheLocked

def executeScaleDownLocked (newTotalActive : Nat) : Except Fault (FlowRegistry α) :=
  let shardsToDrain := fr.activeShards.drop newTotalActive
  ({ fr with
    activeShards := fr.activeShards.take newTotalActive
    drainingShards := fr.drainingShards ++ shardsToDrain
    shards := onShards shardsToDrain .markAsDraining fr.shards }.repartitionShardConfigsLocked).map updateAllShardsCacheLocked

def updateShardCount (n : Int) : Except Fault (FlowRegistry α) :=
  if n ≤ 0 then .ok fr
  else if n = fr.activeShards.length then .ok fr
  else if n > fr.activeShards.length then fr.executeScaleUpLocked n.toNat
  else fr.executeScaleDownLocked n.toNat

/-- The registry that `NewFlowRegistry` fills: no shards yet. -/
def emptyRegistry (config : Config α) (now : Int) : FlowRegistry α where
  config := config
  clock := now
  flowStates := ∅
  priorityBandStates := ∅
  totalByteSize := 0
  totalLen := 0
  perPriorityBandStats := config.priorityBands.mapVals fun _ _ => ⟨0, 0⟩
  shards := fun id => .newShard id ⟨0, 0, ∅⟩
  activeShards := []
  drainingShards := []
  allShards := []
  nextShardID := 0

def newFlowRegistry (config : Config α) (now : Int) : Except Fault (FlowRegistry α) :=
  (emptyRegistry config now).updateShardCount config.initialShardCount

/-! ## Connections -/

/-- `LoadOrStore` of the zero value. -/
def loadOrStore {K V : Type} [DecidableEq K] (t : Table K V) (k : K) (v : V) : Table K V :=
  if k ∈ t then t else t.insert k v

variable (priority : Int)

/-- The loop that adds a new band to the active shards. -/
def addBandToShards : Except Fault (FlowRegistry α) :=
  (forAll fr.activeShards (fun _ s => s.addPriorityBand priority) fr.shards).map fun shards => { fr with shards := shards }

/-- A new band, made from the template, entered in the registry's own maps. -/
def withBand : FlowRegistry α :=
  let newBand := { fr.config.defaultPriorityBand with priority := priority }
  { fr with
    config := { fr.config with priorityBands := fr.config.priorityBands.insert priority newBand }
    perPriorityBandStats := loadOrStore fr.perPriorityBandStats priority ⟨0, 0⟩
    priorityBandStates := loadOrStore fr.priorityBandStates priority .fresh }

def ensurePriorityBand : Except Fault (FlowRegistry α) :=
  if priority ∈ fr.config.priorityBands then .ok fr
  else
    match (fr.withBand priority).repartitionShardConfigsLocked with
    | .error e => .error e
    | .ok fr => fr.addBandToShards priority

/-- The flow's queue on every shard; the flag is the success of the call. -/
def synchronizeShards : Except Fault (FlowRegistry α × Bool) :=
  match fr.buildFlowComponents key with
  | none => .ok (fr, false)
  | some (policy, q) =>
    (forAll fr.allShards (fun _ s => s.synchronizeFlow key policy q) fr.shards).map
      fun shards => ({ fr with shards := shards }, true)

def ensureFlowInfrastructure : Except Fault (FlowRegistry α × Bool) :=
  if key.priority ∈ fr.config.priorityBands then fr.synchronizeShards key
  else
    match fr.ensurePriorityBand key.priority with
    | .error e => .error e
    | .ok fr => fr.synchronizeShards key

def unpinBand (t : Table Int LeasedState) (now : Int) (priority : Int) : Table Int LeasedState :=
  match t.lookup priority with
  | none => t
  | some ls => t.insert priority (ls.unpin now)

/-- What a new flow adds: a lease on its band, and its infrastructure. When that
fails the flow and the lease are taken back. -/
def provision : Except Fault (FlowRegistry α) :=
  match pinLeasedResource fr.priorityBandStates key.priority with
  | none => .error .spinning
  | some (bandStates, _) =>
    match { fr with priorityBandStates := bandStates }.ensureFlowInfrastructure key with
    | .error e => .error e
    | .ok (fr, true) => .ok fr
    | .ok (fr, false) =>
      .ok { fr with
        flowStates := fr.flowStates.erase key
        priorityBandStates := unpinBand fr.priorityBandStates fr.clock key.priority }

/-- `WithConnection` up to the call of its callback. -/
def connect : Except Fault (FlowRegistry α) :=
  if key.id = "" then .ok fr
  else
    match pinLeasedResource fr.flowStates key with
    | none => .error .spinning
    | some (flowStates, isNewFlow) =>
      if isNewFlow then { fr with flowStates := flowStates }.provision key
      else .ok { fr with flowStates := flowStates }

/-- `WithConnection` after its callback has returned, for a flow with an open connection.
The deferred `unpin` gets the time at which it was deferred: `since`, when the
connection was opened, and not the time at which it runs. -/
def disconnect (since : Int) : FlowRegistry α :=
  match fr.flowStates.lookup key with
  | none => fr
  | some ls => if ls.isActive then { fr with flowStates := fr.flowStates.insert key (ls.unpin since) } else fr

/-! ## Garbage collection -/

def cleanupFlowResources (fr : FlowRegistry α) : List FlowKey → FlowRegistry α
  | [] => fr
  | key :: keys =>
    (if key ∈ fr.flowStates then fr
      else { fr with shards := onShards fr.allShards (·.deleteFlow key) fr.shards }).cleanupFlowResources keys

def gcFlows : FlowRegistry α :=
  let (deletedFlows, flowStates) := collectLeasedResources fr.flowStates fr.config.flowGCTimeout fr.clock
  { fr with
    flowStates := flowStates
    priorityBandStates :=
      deletedFlows.foldl (fun t (key : FlowKey) => unpinBand t fr.clock key.priority) fr.priorityBandStates }.cleanupFlowResources deletedFlows

/-- The body of the loop of `cleanupPriorityBandResources`. -/
def deleteBand : FlowRegistry α :=
  if priority ∈ fr.priorityBandStates then fr
  else
    { fr with
      config := { fr.config with priorityBands := fr.config.priorityBands.erase priority }
      perPriorityBandStats := fr.perPriorityBandStats.erase priority
      shards := onShards fr.allShards (·.deletePriorityBand priority) fr.shards }

def cleanupPriorityBandResources (priorities : List Int) : FlowRegistry α :=
  priorities.foldl deleteBand fr

def gcPriorityBands : FlowRegistry α :=
  let (deletedBands, bandStates) := collectLeasedResources fr.priorityBandStates fr.config.priorityBandGCTimeout fr.clock
  { fr with priorityBandStates := bandStates }.cleanupPriorityBandResources deletedBands

def sweepDrainingShards : FlowRegistry α :=
  let keep := fr.drainingShards.filter fun id => (fr.shards id).totalLen != 0
  if keep.length = fr.drainingShards.length then fr
  else { fr with drainingShards := keep }.updateAllShardsCacheLocked

def executeGCCycle : FlowRegistry α :=
  fr.gcFlows.gcPriorityBands.sweepDrainingShards

/-! ## Queues -/

def propagateStatsDelta (d : StatsDelta) : Except Fault (FlowRegistry α) :=
  match fr.perPriorityBandStats.lookup priority with
  | none => .error .missingBand
  | some stats =>
    .ok { fr with
      perPriorityBandStats := fr.perPriorityBandStats.insert priority ⟨stats.byteSize + d.byteSize, stats.len + d.len⟩
      totalLen := fr.totalLen + d.len
      totalByteSize := fr.totalByteSize + d.byteSize }

/-- The shard's part of an operation is done; its change goes to the registry. -/
def finishOp (id : Nat) (priority : Int) (r : RegistryShard α × Option StatsDelta) :
    Except Fault (FlowRegistry α) :=
  let fr1 := { fr with shards := Function.update fr.shards id r.1 }
  match r.2 with
  | none => .ok fr1
  | some d => fr1.propagateStatsDelta priority d

variable [QueueItemAccessor α] [DecidableEq α]

def queueOp (fr : FlowRegistry α) (id : Nat) (key : FlowKey) (op : QueueOp α) : Except Fault (FlowRegistry α) :=
  match (fr.shards id).queueOp key op with
  | .error e => .error e
  | .ok r => fr.finishOp id key.priority r

def detachedOp (fr : FlowRegistry α) (id : Nat) (i : Nat) (op : QueueOp α) : Except Fault (FlowRegistry α) :=
  match (fr.shards id).detached[i]? with
  | none => .ok fr
  | some mq =>
    match (fr.shards id).detachedOp i op with
    | .error e => .error e
    | .ok r => fr.finishOp id mq.key.priority r

end FlowRegistry

/-! ## Runs -/

/-- What can happen to a registry. -/
inductive Op (α : Type) where
  | connect (key : FlowKey)
  | disconnect (key : FlowKey) (since : Int)
  | tick (d : Nat)
  | gc
  | scale (n : Int)
  /-- On the queue the shard `id` has for the flow. -/
  | queue (id : Nat) (key : FlowKey) (op : QueueOp α)
  /-- On the `i`-th queue the shard `id` has deleted. -/
  | detached (id i : Nat) (op : QueueOp α)

variable {α : Type} [QueueItemAccessor α] [DecidableEq α]

def FlowRegistry.step (fr : FlowRegistry α) : Op α → Except Fault (FlowRegistry α)
  | .connect key => fr.connect key
  | .disconnect key since => .ok (fr.disconnect key since)
  | .tick d => .ok { fr with clock := fr.clock + d }
  | .gc => .ok fr.executeGCCycle
  | .scale n => fr.updateShardCount n
  | .queue id key op => fr.queueOp id key op
  | .detached id i op => fr.detachedOp id i op

end InferenceGateway.Registry
