import InferenceGateway.Datastore.Endpoints
import InferenceGateway.Lib.Programs
/-!
# The endpoints in the datastore

`datastore.go`, as far as it is about the pool and its endpoints. The functions are
programs of single accesses: to the map of endpoints, to the pool under its lock, and to
whatever the factory of endpoints keeps. Each may be run alone, or beside others.
-/

namespace InferenceGateway.Datastore

open Lib

structure Endpoint where
  /-- The object. -/
  id : ℕ
  metadata : EndpointMetadata
deriving DecidableEq

/-- The map `ds.pods`. An endpoint is kept under its own name. -/
structure Pods where
  table : Table NamespacedName Endpoint
  keyed : ∀ name ep, table.lookup name = some ep → ep.metadata.namespacedName = name

namespace Pods

def empty : Pods := ⟨∅, fun _ _ h => by cases h⟩

variable (p : Pods)

def load (name : NamespacedName) : Option Endpoint := p.table.lookup name

def store (ep : Endpoint) : Pods where
  table := p.table.insert ep.metadata.namespacedName ep
  keyed name ep' h := by
    rw [Table.lookup_insert_ite] at h
    split at h
    · cases h
      exact Eq.symm ‹_›
    · exact p.keyed name ep' h

def delete (name : NamespacedName) : Pods where
  table := p.table.erase name
  keyed name' ep h := by
    rw [Table.lookup_erase_ite] at h
    split at h
    · cases h
    · exact p.keyed name' ep h

/-- `UpdateMetadata` on an endpoint, which may have left the map. -/
def update (id : ℕ) (metadata : EndpointMetadata) : Pods :=
  match p.load metadata.namespacedName with
  | some ep => if ep.id = id then p.store ⟨id, metadata⟩ else p
  | none => p

theorem load_store (ep : Endpoint) (name : NamespacedName) :
    (p.store ep).load name = if name = ep.metadata.namespacedName then some ep else p.load name :=
  Table.lookup_insert_ite ..

/-- There is an endpoint with the metadata, whatever object it is. -/
theorem exists_endpoint_iff {name : NamespacedName} {m : EndpointMetadata} :
    (∃ id, p.load name = some ⟨id, m⟩) ↔ (p.load name).map Endpoint.metadata = some m := by
  rw [Option.map_eq_some_iff]
  constructor
  · rintro ⟨id, hid⟩
    exact ⟨⟨id, m⟩, hid, rfl⟩
  · rintro ⟨ep, hep, rfl⟩
    exact ⟨ep.id, hep⟩

theorem load_delete (name name' : NamespacedName) : (p.delete name).load name' = if name' = name then none else p.load name' :=
  Table.lookup_erase_ite ..

theorem update_of_load {ep : Endpoint} {metadata : EndpointMetadata} (h : p.load metadata.namespacedName = some ep) :
    p.update ep.id metadata = p.store ⟨ep.id, metadata⟩ := by
  rw [update, h]
  exact if_pos rfl

end Pods

/-- `NewEndpoint` returns the new object, or `nil`. -/
structure EndpointFactory (Φ : Type) where
  newEndpoint : EndpointMetadata → Prog Φ (Option ℕ)
  releaseEndpoint : Endpoint → Prog Φ Unit

/-- The functions of the labels package of Kubernetes, with what they are documented to do. -/
structure LabelsPackage where
  /-- `labels.Equals`. -/
  equals : Table String String → Table String String → Bool
  equals_iff : ∀ a b, equals a b = true ↔ ∀ k, a.lookup k = b.lookup k
  /-- `labels.SelectorFromSet(selector).Matches`. -/
  selectorMatches : Table String String → Table String String → Bool
  selectorMatches_iff : ∀ selector labels, selectorMatches selector labels = true ↔
    ∀ k v, selector.lookup k = some v → labels.lookup k = some v

structure World (Φ : Type) where
  /-- `ds.mu` is held for writing. -/
  locked : Bool
  pool : Option EndpointPool
  pods : Pods
  epf : Φ
  /-- What `ReleaseEndpoint` has been called with. -/
  released : List Endpoint

variable {Φ : Type} (labelsPkg : LabelsPackage)

/-! ## Single accesses -/

def lock : Prog (World Φ) Unit := .await (fun w => !w.locked) fun w => { w with locked := true }

def unlock : Prog (World Φ) Unit := .write fun w => { w with locked := false }

def loadPod (name : NamespacedName) : Prog (World Φ) (Option Endpoint) := .read fun w => w.pods.load name

def storePod (ep : Endpoint) : Prog (World Φ) Unit := .write fun w => { w with pods := w.pods.store ep }

def deletePod (name : NamespacedName) : Prog (World Φ) Unit := .write fun w => { w with pods := w.pods.delete name }

def updateMetadata (id : ℕ) (metadata : EndpointMetadata) : Prog (World Φ) Unit :=
  .write fun w => { w with pods := w.pods.update id metadata }

/-- The names that `Range` visits. -/
def podNames : Prog (World Φ) (List NamespacedName) := .read fun w => w.pods.table.keys

def withFactory {α : Type} (p : Prog Φ α) : Prog (World Φ) α := p.on World.epf fun w φ => { w with epf := φ }

/-! ## Pods -/

def endpointMetadata (modelServerMetricsPort : Int) (pool : EndpointPool) (pod : Pod) (idx : ℕ) (port : Int) : EndpointMetadata where
  namespacedName := createEndpointNamespacedName pod idx
  podName := pod.name
  address := pod.podIP
  port := toString port
  metricsHost := RequestControl.joinHostPort pod.podIP
    -- the configured port counts for pods with one rank only
    (toString (if pool.targetPorts.length = 1 ∧ modelServerMetricsPort ≠ 0 then modelServerMetricsPort else port))
  labels := pod.labels

/-- The endpoints of a pod. -/
def endpointsOf (modelServerMetricsPort : Int) (pool : EndpointPool) (pod : Pod) : List EndpointMetadata :=
  pool.targetPorts.zipIdx.filterMap fun (port, idx) =>
    if port ∈ extractActivePorts pod pool.targetPorts then some (endpointMetadata modelServerMetricsPort pool pod idx port) else none

/-- The names that the endpoints at the other ports would have. -/
def inactiveNames (pool : EndpointPool) (pod : Pod) : List NamespacedName :=
  pool.targetPorts.zipIdx.filterMap fun (port, idx) =>
    if port ∈ extractActivePorts pod pool.targetPorts then none else some (createEndpointNamespacedName pod idx)

variable (f : EndpointFactory Φ) (modelServerMetricsPort : Int)

def releaseEndpoint (ep : Endpoint) : Prog (World Φ) Unit := do
  Prog.write fun w => { w with released := w.released ++ [ep] }
  withFactory (f.releaseEndpoint ep)

/-- `false` when the endpoint is new. -/
def addOrUpdate (metadata : EndpointMetadata) : Prog (World Φ) Bool := do
  match ← loadPod metadata.namespacedName with
  | some existing =>
    updateMetadata existing.id metadata
    return true
  | none =>
    match ← withFactory (f.newEndpoint metadata) with
    | none => return true
    | some id =>
      storePod ⟨id, metadata⟩
      updateMetadata id metadata
      return false

/-- The entry goes, if it is there, and its endpoint is released. -/
def removeIf (drop : Endpoint → Bool) (name : NamespacedName) : Prog (World Φ) Unit := do
  match ← loadPod name with
  | none => return ()
  | some ep =>
    if drop ep then
      deletePod name
      releaseEndpoint f ep

def podUpdateOrAddIfNotExist (pod : Pod) (pool : Option EndpointPool) : Prog (World Φ) Bool := do
  match pool with
  | none => return true
  | some pool =>
    let result ← (endpointsOf modelServerMetricsPort pool pod).foldlM
      (fun result metadata => do return (← addOrUpdate f metadata) && result) true
    (inactiveNames pool pod).forM (removeIf f fun _ => true)
    return result

/-- `PodUpdateOrAddIfNotExist`. The pool is read under the lock. -/
def podUpdate (pod : Pod) : Prog (World Φ) Bool := do
  let pool ← Prog.readWhen (fun w => !w.locked) World.pool
  podUpdateOrAddIfNotExist f modelServerMetricsPort pod pool

def podDelete (podName : String) : Prog (World Φ) Unit := do
  let names ← podNames
  names.forM (removeIf f fun ep => ep.metadata.podName = podName)

/-! ## Pools -/

/-- The names that a resync leaves alone. -/
def activeEndpoints (pool : EndpointPool) (podList : List Pod) : List NamespacedName :=
  (podList.filter isPodReady).flatMap fun pod => (List.range pool.targetPorts.length).map (createEndpointNamespacedName pod)

/-- `podList` is what has been listed. -/
def podResyncAll (pool : EndpointPool) (podList : List Pod) : Prog (World Φ) Unit := do
  (podList.filter isPodReady).forM fun pod => discard (podUpdateOrAddIfNotExist f modelServerMetricsPort pod (some pool))
  let names ← podNames
  names.forM (removeIf f fun ep => ep.metadata.namespacedName ∉ activeEndpoints pool podList)

def clear : Prog (World Φ) Unit := do
  lock
  Prog.write fun w => { w with pool := none }
  let names ← podNames
  names.forM fun name => do
    match ← loadPod name with
    | none => return ()
    | some ep => releaseEndpoint f ep
  Prog.write fun w => { w with pods := .empty }
  unlock

/-- The selector or the target ports are not what they were. -/
def needsResync (old : Option EndpointPool) (pool : EndpointPool) : Bool :=
  match old with
  | none => true
  | some old => !labelsPkg.equals old.selector pool.selector || old.targetPorts ≠ pool.targetPorts

/-- `listed` is what listing the pods of the pool gives, when that is done. -/
def poolSet (listed : Except String (List Pod)) : Option EndpointPool → Prog (World Φ) (Except String Unit)
  | none => do
    clear f
    return .ok ()
  | some pool => do
    lock
    let old ← Prog.read World.pool
    Prog.write fun w => { w with pool := some pool }
    if needsResync labelsPkg old pool then
      match listed with
      | .error err =>
        unlock
        return .error ("failed to update pods according to the pool selector - failed to list pods - " ++ err)
      | .ok podList =>
        podResyncAll f modelServerMetricsPort pool podList
        unlock
        return .ok ()
    else
      unlock
      return .ok ()

end InferenceGateway.Datastore
