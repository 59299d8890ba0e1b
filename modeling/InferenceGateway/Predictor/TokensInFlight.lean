import InferenceGateway.Lib.CounterMap
import InferenceGateway.Lib.Runs
/-!
# Prefill tokens in flight

The hooks of the predicted latency plugin, as far as they change
`prefillTokensInFlight`, the counters of the pods. `PreRequest` adds the tokens of a
request to the counters of its prefill and its decode pod; the prefill pod gets them back
with the first token, the decode pod at the end. A hook first decides, from the context of
its request, which counters to access; the accesses are made one by one, between those of
the hooks of other requests.

Pods are their keys in the map, times are in nanoseconds.
-/

namespace InferenceGateway.Predictor

open Lib

/-- What a hook still has to do. -/
inductive Access where
  /-- `podCounter(key).Add(n)`. -/
  | raise (key : String) (n : ℕ)
  /-- `podCounter(key).Load()` for the context. -/
  | record (onPrefill : Bool) (key : String)
  /-- `podCounter(key).Add(-n)`, with the key deleted at zero. -/
  | lower (key : String) (n : ℕ)
  | delete (key : String)
  /-- The context is deleted. -/
  | forget
deriving DecidableEq

/-- The counter that has to be loaded first. -/
def Access.counter : Access → Option String
  | raise key _ | record _ key | lower key _ => some key
  | delete _ | forget => none

/-- Where the context of a request is: an item that has expired is not found any more, until
it is evicted. -/
inductive Stored where
  | absent
  | valid
  | expired
deriving DecidableEq

/-- A request, with its `predictedLatencyCtx`. -/
structure Tracked where
  prepared : Bool
  stored : Stored
  /-- The pod the director has sent the request to. -/
  targetPod : Option String
  targetMetadata : Option String
  prefillTargetMetadata : Option String
  requestReceivedTimestamp : Int
  /-- Milliseconds. -/
  ttft : Int
  inputTokenCount : ℕ
  prefillTokensAtDispatch : Int
  prefillTokensAtDispatchOnPrefill : Int
  /-- The rest of the hook that is under way. -/
  todo : List Access
  /-- The counter it has loaded. -/
  holding : Option ℕ
  /-- What has been added to and taken from the counter of a pod for the request. -/
  added : String → ℕ
  subtracted : String → ℕ
  /-- The end of the stream or the eviction has been seen. -/
  ended : Bool

namespace Tracked

def new : Tracked where
  prepared := false
  stored := .absent
  targetPod := none
  targetMetadata := none
  prefillTargetMetadata := none
  requestReceivedTimestamp := 0
  ttft := 0
  inputTokenCount := 0
  prefillTokensAtDispatch := 0
  prefillTokensAtDispatchOnPrefill := 0
  todo := []
  holding := none
  added := fun _ => 0
  subtracted := fun _ => 0
  ended := false

variable (r : Tracked)

/-- `now.Sub(requestReceivedTimestamp).Milliseconds()`. -/
def elapsed (now : Int) : Int := (now - r.requestReceivedTimestamp).tdiv 1000000

/-- What `PreRequest` does to the counters. -/
def booking : List Access :=
  (r.prefillTargetMetadata.elim [] fun key => [.raise key r.inputTokenCount, .record true key]) ++
    r.targetMetadata.elim [] fun key => [.raise key r.inputTokenCount, .record false key]

/-- The tokens of a pod given back, if there is one. -/
def giveBack (pod : Option String) : List Access := pod.elim [] fun key => [.lower key r.inputTokenCount]

def preRequest (predictor : Bool) (id : String) (target : String) (prefill : Option String) (now : Int) : Tracked :=
  let r := { r with targetPod := some target }
  if ¬ predictor ∨ id = "" ∨ r.stored ≠ .valid then r
  else
    let r := { r with
      targetMetadata := some target
      prefillTargetMetadata := prefill
      requestReceivedTimestamp := now }
    { r with todo := r.booking }

def responseBody (predictor streamingMode endOfStream : Bool) (target : String) (now : Int) : Tracked :=
  if ¬ predictor ∨ r.stored ≠ .valid then r
  else
    let r :=
      if r.ttft = 0 ∧ streamingMode ∧ ¬ endOfStream then
        { r with ttft := r.elapsed now, todo := r.giveBack r.prefillTargetMetadata }
      else r
    if endOfStream then
      -- asked before the time of a response that does not stream is noted
      let ttftNotYetRecorded := r.ttft = 0
      { r with
        ttft := if streamingMode then r.ttft else r.elapsed now
        todo := r.todo ++ (if ttftNotYetRecorded then r.giveBack r.prefillTargetMetadata else []) ++
          r.giveBack (some target) ++ [.forget]
        ended := true }
    else r

/-- The callback for a context that has expired. -/
def onEviction : Tracked :=
  { r with
    stored := .absent
    ended := true
    todo := r.todo ++
      if r.prefillTokensAtDispatch > 0 ∨ r.prefillTokensAtDispatchOnPrefill > 0 then
        (if r.ttft = 0 then r.giveBack r.prefillTargetMetadata else []) ++ r.giveBack r.targetMetadata
      else [] }

/-- The key that the hook deletes next. -/
def deleting : Option String :=
  match r.todo with
  | .delete key :: _ => some key
  | _ => none

end Tracked

structure LatencyConfig where
  streamingMode : Bool
  /-- A predictor is there. -/
  predictor : Bool

structure TokensInFlight where
  prefillTokensInFlight : CounterMap String
  requests : Table String Tracked

namespace TokensInFlight

inductive Op where
  /-- `PrepareRequestData` stores the context. -/
  | prepare (id : String) (inputTokenCount : ℕ)
  | preRequest (id : String) (target : String) (prefill : Option String) (now : Int)
  | responseBody (id : String) (endOfStream : Bool) (now : Int)
  /-- The context expires, and is evicted. -/
  | expire (id : String)
  | evict (id : String)
  /-- The hook of the request makes its next access. -/
  | advance (id : String)

def new : TokensInFlight := ⟨.empty, ∅⟩

variable (s : TokensInFlight)

def get (id : String) : Tracked := (s.requests.lookup id).getD .new

def put (id : String) (r : Tracked) : TokensInFlight := { s with requests := s.requests.insert id r }

def bump (f : String → ℕ) (key : String) (n : ℕ) : String → ℕ := fun k => if k = key then f k + n else f k

/-- The access, with the counter that it needs in hand. -/
def access (id : String) (r : Tracked) (p : ℕ) (rest : List Access) : Access → TokensInFlight
  | .raise key n => ⟨s.prefillTokensInFlight.add p n,
      s.requests.insert id { r with todo := rest, holding := none, added := bump r.added key n }⟩
  | .record true _ => s.put id { r with
      todo := rest, holding := none, prefillTokensAtDispatchOnPrefill := s.prefillTokensInFlight.load p }
  | .record false _ => s.put id { r with
      todo := rest, holding := none, prefillTokensAtDispatch := s.prefillTokensInFlight.load p }
  | .lower key n =>
    let m := s.prefillTokensInFlight.add p (-n)
    ⟨m, s.requests.insert id { r with
      -- the deletion is an access of its own: others may raise the counter in between
      todo := if m.load p = 0 then .delete key :: rest else rest
      holding := none
      subtracted := bump r.subtracted key n }⟩
  | .delete key => ⟨s.prefillTokensInFlight.delete key, s.requests.insert id { r with todo := rest }⟩
  | .forget => s.put id { r with todo := rest, stored := .absent }

/-- The next access of the hook: a counter is loaded before it is used. -/
def advance (id : String) (r : Tracked) (a : Access) (rest : List Access) : TokensInFlight :=
  match a.counter, r.holding with
  | some key, none =>
    let m := s.prefillTokensInFlight.loadOrStore key
    ⟨m.2, s.requests.insert id { r with holding := some m.1 }⟩
  | _, p => s.access id r (p.getD 0) rest a

/-- The stream of a request makes its calls one after the other; its id is its own, and the
server has given it one if it had none. -/
def step (config : LatencyConfig) : Op → Except Unit TokensInFlight
  | .prepare id inputTokenCount =>
    let r := s.get id
    if id = "" ∨ r.prepared then .error ()
    else .ok (s.put id { r with prepared := true, stored := .valid, inputTokenCount := inputTokenCount })
  | .preRequest id target prefill now =>
    let r := s.get id
    if r.targetPod.isSome then .error () else .ok (s.put id (r.preRequest config.predictor id target prefill now))
  | .responseBody id endOfStream now =>
    let r := s.get id
    match r.targetPod, r.todo with
    | some target, [] =>
      .ok (s.put id (r.responseBody config.predictor config.streamingMode endOfStream target now))
    | _, _ => .error ()
  | .expire id =>
    let r := s.get id
    if r.stored = .valid then .ok (s.put id { r with stored := .expired }) else .error ()
  | .evict id =>
    let r := s.get id
    if r.stored = .expired then .ok (s.put id r.onEviction) else .error ()
  | .advance id =>
    let r := s.get id
    match r.todo with
    | [] => .error ()
    | a :: rest => .ok (s.advance id r a rest)

/-- The condition on a step: the context is stored before `PreRequest` asks for it; in
streaming mode, the first part of a response that is not its end comes at least a
millisecond after `PreRequest`; a context is not evicted during a hook of its request; a
counter that is deleted is zero, and nobody else has it in hand. -/
def Cond (config : LatencyConfig) : Op → Prop
  | .prepare id _ => (s.get id).targetPod = none
  | .responseBody id false now => config.streamingMode = true → (s.get id).ttft = 0 →
      (s.get id).prefillTargetMetadata ≠ none → (s.get id).elapsed now ≠ 0
  | .evict id => (s.get id).todo = []
  | .advance id => ∀ key ∈ (s.get id).deleting, s.prefillTokensInFlight.value key = 0 ∧
      ∀ e ∈ s.requests.entries, ∀ p ∈ e.2.holding, s.prefillTokensInFlight.pointers.lookup key ≠ some p
  | _ => True

instance (config : LatencyConfig) (op : Op) : Decidable (s.Cond config op) := by
  unfold Cond
  split <;> infer_instance

/-- No hook is under way, and the context is gone, or nothing has been booked for the request. -/
def Finished (r : Tracked) : Prop := r.todo = [] ∧ (r.stored = .absent ∨ r.targetMetadata = none)

end TokensInFlight

end InferenceGateway.Predictor
