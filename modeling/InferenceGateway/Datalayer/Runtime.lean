import InferenceGateway.Datastore.Store
/-!
# The runtime of the data layer

`runtime.go`: the factory of endpoints that starts a collector for each and tells the
extractors of endpoint sources when one comes or goes. What `Configure` leaves in the
maps of sources is a parameter, and so is which collectors fail to start. The accesses to
the map of collectors are single steps, and so are the calls of extractors.
-/

namespace InferenceGateway.Datalayer

open Lib Datastore

inductive EventType where
  | addOrUpdate
  | delete
deriving DecidableEq

structure EndpointEvent where
  type : EventType
  endpoint : Endpoint

/-- `endpoint` says whether it is an `EndpointExtractor`. -/
structure Extractor where
  name : String
  endpoint : Bool
deriving DecidableEq

/-- `NotifyEndpoint` of a source; it may fail, or hold the event back. -/
abbrev NotifyEndpoint : Type := EndpointEvent → Except String (Option EndpointEvent)

structure Sources where
  pollers : List String
  endpointSources : Table String NotifyEndpoint
  sourceExtractors : Table String (List Extractor)
  /-- The collector of this endpoint does not start, as the context is done. -/
  startFails : ℕ → Bool

/-- A collector has the number of the endpoint it collects for. -/
structure Runtime where
  /-- The number of endpoints so far. -/
  made : ℕ
  collectors : Table NamespacedName ℕ
  /-- The collectors that have been started and not stopped. -/
  running : List ℕ
  /-- The calls of `ExtractEndpoint`, in order. -/
  seen : List (Extractor × EndpointEvent)

namespace Runtime

def new : Runtime := ⟨0, ∅, [], []⟩

/-! ## Single accesses -/

def makeEndpoint : Prog Runtime ℕ := .modifyGet fun r => (r.made, { r with made := r.made + 1 })

/-- `LoadOrStore`: whether there was one. -/
def loadOrStore (name : NamespacedName) (collector : ℕ) : Prog Runtime Bool :=
  .modifyGet fun r =>
    match r.collectors.lookup name with
    | some _ => (true, r)
    | none => (false, { r with collectors := r.collectors.insert name collector })

def deleteCollector (name : NamespacedName) : Prog Runtime Unit := .write fun r => { r with collectors := r.collectors.erase name }

def loadAndDelete (name : NamespacedName) : Prog Runtime (Option ℕ) :=
  .modifyGet fun r => (r.collectors.lookup name, { r with collectors := r.collectors.erase name })

def startCollector (collector : ℕ) : Prog Runtime Unit := .write fun r => { r with running := collector :: r.running }

def stopCollector (collector : ℕ) : Prog Runtime Unit := .write fun r => { r with running := r.running.filter (· ≠ collector) }

def extractEndpoint (ext : Extractor) (event : EndpointEvent) : Prog Runtime Unit :=
  .write fun r => { r with seen := r.seen ++ [(ext, event)] }

/-! ## The factory -/

variable (src : Sources)

variable (event : EndpointEvent)

/-- What one source does with an event. -/
def dispatchTo (srcName : String) (notify : NotifyEndpoint) : Prog Runtime Unit :=
  match notify event with
  | .error _ => return ()
  | .ok none => return ()
  | .ok (some processed) =>
    match src.sourceExtractors.lookup srcName with
    | none => return ()
    | some exts => exts.forM fun ext => if ext.endpoint then extractEndpoint ext processed else return ()

def dispatchEndpointEvent : Prog Runtime Unit :=
  src.endpointSources.entries.forM fun entry => dispatchTo src event entry.1 entry.2

def newEndpoint (metadata : EndpointMetadata) : Prog Runtime (Option ℕ) := do
  let id ← makeEndpoint
  -- without a poller there is no collector, and no source hears of the endpoint
  if src.pollers = [] then return some id
  else if ← loadOrStore metadata.namespacedName id then return none
  else if src.startFails id then
    deleteCollector metadata.namespacedName
    return none
  else
    startCollector id
    dispatchEndpointEvent src ⟨.addOrUpdate, ⟨id, metadata⟩⟩
    return some id

def releaseEndpoint (ep : Endpoint) : Prog Runtime Unit := do
  dispatchEndpointEvent src ⟨.delete, ep⟩
  match ← loadAndDelete ep.metadata.namespacedName with
  | none => return ()
  | some collector => stopCollector collector

/-! ## What the factory does alone -/

/-- What the extractors of one source are told. -/
def deliveriesTo (srcName : String) (notify : NotifyEndpoint) : List (Extractor × EndpointEvent) :=
  match notify event with
  | .error _ => []
  | .ok none => []
  | .ok (some processed) => (((src.sourceExtractors.lookup srcName).getD []).filter Extractor.endpoint).map (·, processed)

def deliveries : List (Extractor × EndpointEvent) :=
  src.endpointSources.entries.flatMap fun entry => deliveriesTo src event entry.1 entry.2

variable {src}

theorem exec_forM_extractEndpoint (exts : List Extractor) (r : Runtime) :
    (exts.forM fun ext => if ext.endpoint then extractEndpoint ext event else return () : Prog Runtime Unit).exec r =
      ((), { r with seen := r.seen ++ (exts.filter Extractor.endpoint).map (·, event) }) := by
  induction exts generalizing r with
  | nil => simp
  | cons ext exts ih =>
    rw [Prog.exec_forM_cons, ih]
    cases h : ext.endpoint with
    | true => simp [h, extractEndpoint]
    | false => simp [h]

theorem exec_dispatchTo (srcName : String) (notify : NotifyEndpoint) (r : Runtime) :
    (dispatchTo src event srcName notify).exec r = ((), { r with seen := r.seen ++ deliveriesTo src event srcName notify }) := by
  unfold dispatchTo deliveriesTo
  cases notify event with
  | error err => simp
  | ok processed =>
    cases processed with
    | none => simp
    | some processed =>
      cases src.sourceExtractors.lookup srcName with
      | none => simp
      | some exts => exact exec_forM_extractEndpoint processed exts r

theorem exec_dispatchEndpointEvent (r : Runtime) :
    (dispatchEndpointEvent src event).exec r = ((), { r with seen := r.seen ++ deliveries src event }) := by
  unfold dispatchEndpointEvent deliveries
  generalize src.endpointSources.entries = entries
  induction entries generalizing r with
  | nil => simp
  | cons entry entries ih => rw [Prog.exec_forM_cons, ih, exec_dispatchTo, List.flatMap_cons, List.append_assoc]

/-- A new endpoint is announced when there is a poller and its collector has started. -/
theorem exec_newEndpoint (src : Sources) (metadata : EndpointMetadata) (r : Runtime) :
    let made := (newEndpoint src metadata).exec r
    made.2.made = r.made + 1 ∧
    (made.1 = none ∧ made.2.seen = r.seen ∨
      made.1 = some r.made ∧
        made.2.seen = r.seen ++ if src.pollers = [] then [] else deliveries src ⟨.addOrUpdate, ⟨r.made, metadata⟩⟩) := by
  by_cases hpollers : src.pollers = []
  · simp [newEndpoint, makeEndpoint, hpollers]
  · cases hload : r.collectors.lookup metadata.namespacedName with
    | some collector => simp [newEndpoint, makeEndpoint, loadOrStore, hpollers, hload]
    | none =>
      cases hfails : src.startFails r.made with
      | true => simp [newEndpoint, makeEndpoint, loadOrStore, deleteCollector, hpollers, hload, hfails]
      | false =>
        simp [newEndpoint, makeEndpoint, loadOrStore, startCollector, exec_dispatchEndpointEvent, hpollers, hload, hfails]

theorem exec_releaseEndpoint (src : Sources) (ep : Endpoint) (r : Runtime) :
    let r' := ((releaseEndpoint src ep).exec r).2
    r'.made = r.made ∧ r'.seen = r.seen ++ deliveries src ⟨.delete, ep⟩ := by
  cases hload : r.collectors.lookup ep.metadata.namespacedName with
  | none => simp [releaseEndpoint, exec_dispatchEndpointEvent, loadAndDelete, hload]
  | some collector => simp [releaseEndpoint, exec_dispatchEndpointEvent, loadAndDelete, stopCollector, hload]

end Runtime

end InferenceGateway.Datalayer
