import InferenceGateway.Lib.Table
/-!
# The load in flight

`producer.go` of the in-flight load, as goroutines run it side by side. A tracker holds
pointers to counters. `add` looks its counter up and then adds to it, or comes back with
the lock to make one; in between, the counter may have left the map. So each access to
the map and each addition is one step. `PreRequest` adds for every target of a request,
and the end of the response takes away for the one that the director has kept.
-/

namespace InferenceGateway.InFlightLoad

open Lib Function

/-! ## Estimates -/

/-- What is read of a request, with its targets in the primary profile. -/
structure Request where
  requestSizeBytes : ℕ
  /-- The length of the body's prompt, if there is a body. -/
  promptText : Option ℕ
  /-- The names of the endpoints. -/
  targetEndpoints : List String
deriving DecidableEq

/-- `OutputRatio` is 1.5, and halves are rounded up. -/
def withOutput (inputTokens : ℕ) : ℕ := inputTokens + (3 * inputTokens + 1) / 2

variable (request : Request)

/-- `CharactersPerToken` is 4. -/
def estimate : ℕ :=
  if 0 < request.requestSizeBytes then withOutput (max (request.requestSizeBytes / 4) 1)
  else
    match request.promptText with
    | some chars => withOutput (max 1 ((chars + 2) / 4))
    | none => 0

/-! ## Trackers -/

structure ConcurrencyTracker where
  /-- The counters by their addresses; those from `next` on are not allocated. -/
  counters : ℕ → Int64
  counts : Table String ℕ
  next : ℕ

namespace ConcurrencyTracker

def new : ConcurrencyTracker := ⟨fun _ => 0, ∅, 0⟩

variable (ct : ConcurrencyTracker)

def get (endpointID : String) : Int64 :=
  match ct.counts.lookup endpointID with
  | some counter => ct.counters counter
  | none => 0

/-- `counter.Add(delta)`. -/
def addTo (counter : ℕ) (delta : Int64) : ConcurrencyTracker :=
  { ct with counters := update ct.counters counter (ct.counters counter + delta) }

/-- `add` with the lock held. -/
def addLocked (endpointID : String) (delta : Int64) : ConcurrencyTracker :=
  match ct.counts.lookup endpointID with
  | some counter => ct.addTo counter delta
  | none => ⟨update ct.counters ct.next delta, ct.counts.insert endpointID ct.next, ct.next + 1⟩

def delete (endpointID : String) : ConcurrencyTracker := { ct with counts := ct.counts.erase endpointID }

end ConcurrencyTracker

/-! ## Requests -/

inductive Kind where
  | requests
  | tokens
deriving DecidableEq

instance : Fintype Kind := ⟨{.requests, .tokens}, by intro kind; cases kind <;> decide⟩

/-- A call of `add` on one of the trackers. -/
structure Addition where
  kind : Kind
  endpointID : String
  delta : Int
deriving DecidableEq

def preRequest : List Addition :=
  request.targetEndpoints.flatMap fun eid => [⟨.requests, eid, 1⟩, ⟨.tokens, eid, estimate request⟩]

/-- At the end of the stream. -/
def responseBody (targetEndpoint : String) : List Addition :=
  [⟨.requests, targetEndpoint, -1⟩, ⟨.tokens, targetEndpoint, -estimate request⟩]

/-- All that is added for a request. The director keeps the first target; without one it
does not get as far as the plugins. -/
def additions : List Addition :=
  match request.targetEndpoints with
  | [] => []
  | target :: _ => preRequest request ++ responseBody request target

/-- A request that is being served: what is still to be added, and the counter that was
found for the first of it once the map has been read. -/
structure Serving where
  request : Request
  todo : List Addition
  found : Option (Option ℕ)
deriving DecidableEq

structure Producer where
  trackers : Kind → ConcurrencyTracker
  serving : List Serving

inductive Event where
  /-- `PreRequest` is called. -/
  | schedule (request : Request)
  /-- The next access of the request at this place. -/
  | advance (j : ℕ)
  /-- Half of `DeleteEndpoint`. -/
  | delete (kind : Kind) (endpointID : String)

namespace Producer

def new : Producer := ⟨fun _ => .new, []⟩

variable (p : Producer)

def setTracker (kind : Kind) (ct : ConcurrencyTracker) : Producer :=
  { p with trackers := update p.trackers kind ct }

def setServing (j : ℕ) (s : Serving) : Producer := { p with serving := p.serving.set j s }

theorem setTracker_same (kind : Kind) (ct : ConcurrencyTracker) : (p.setTracker kind ct).trackers kind = ct :=
  update_self ..

theorem setTracker_other {kind kind' : Kind} (h : kind' ≠ kind) (ct : ConcurrencyTracker) :
    (p.setTracker kind ct).trackers kind' = p.trackers kind' :=
  update_of_ne h ..

theorem setServing_trackers (j : ℕ) (s : Serving) : (p.setServing j s).trackers = p.trackers := rfl

/-- One access of `add`. -/
def advance (j : ℕ) (s : Serving) : Producer :=
  match s.todo, s.found with
  | [], _ => p
  | a :: _, none => p.setServing j { s with found := some ((p.trackers a.kind).counts.lookup a.endpointID) }
  | a :: rest, some (some counter) =>
    (p.setTracker a.kind ((p.trackers a.kind).addTo counter (.ofInt a.delta))).setServing j ⟨s.request, rest, none⟩
  | a :: rest, some none =>
    (p.setTracker a.kind ((p.trackers a.kind).addLocked a.endpointID (.ofInt a.delta))).setServing j ⟨s.request, rest, none⟩

def step : Event → Except Empty Producer
  | .schedule request => .ok { p with serving := p.serving ++ [⟨request, additions request, none⟩] }
  | .advance j => .ok (p.serving[j]?.elim p (p.advance j))
  | .delete kind endpointID => .ok (p.setTracker kind ((p.trackers kind).delete endpointID))

end Producer

end InferenceGateway.InFlightLoad
