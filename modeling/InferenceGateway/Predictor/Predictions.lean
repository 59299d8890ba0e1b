import InferenceGateway.Predictor.Coalescer
/-!
# Predictions for the candidates of a request

`generatePredictions` and `bulkPredictWithMetrics`. The answer of the server is
indexed by the position of the candidate. Only the coalescer has compared its length
with what was sent.
-/

namespace InferenceGateway.Predictor

open Lib

structure NamespacedName where
  namespace_ : String
  name : String
deriving DecidableEq

structure EndpointMetadata where
  namespacedName : NamespacedName
  labels : List (String × String)
deriving DecidableEq

structure Metrics (F : Type) where
  kvCacheUsagePercent : F
  waitingQueueSize : Int
  runningRequestsSize : Int
deriving DecidableEq

structure Endpoint (F : Type) where
  /-- `none` is `nil`, here and below. -/
  metadata : Option EndpointMetadata
  metrics : Option (Metrics F)
deriving DecidableEq

structure EndpointPredictionResult (F : Type) where
  endpoint : Endpoint F
  ttft : F
  tpot : F
  ttftValid : Bool
  tpotValid : Bool
  isValid : Bool
  headroom : F
  ttftHeadroom : F
  prefixCacheScore : F
deriving DecidableEq

/-- The plugin, as far as it is read here. -/
structure PredictedLatency (F : Type) where
  endpointRoleLabel : String
  streamingMode : Bool
  sloBufferFactor : F
  prefillTokensInFlight : NamespacedName → Int
  /-- The least TPOT objective among the running requests of an endpoint, or zero. -/
  endpointMinTPOTSLO : NamespacedName → F
  /-- The logger is at trace level. -/
  trace : Bool

structure PredictedLatencyCtx (F : Type) where
  promptText : String
  ttftSLO : F
  avgTPOTSLO : F
  prefixCacheScoresForEndpoints : String → F

/-- `unicode.IsSpace`. -/
def isSpace (c : Char) : Bool :=
  c.val ∈ [9, 10, 11, 12, 13, 32, 0x85, 0xa0, 0x1680, 0x2028, 0x2029, 0x202f, 0x205f, 0x3000] ∨ (0x2000 ≤ c.val ∧ c.val ≤ 0x200a)

/-- `len(strings.Fields(s))`. -/
def fieldCount (s : String) : Nat := ((s.toList.splitOnP isSpace).filter (· ≠ [])).length

variable {F : Type}

def EndpointMetadata.label (m : EndpointMetadata) (key : String) : String := (m.labels.lookup key).getD ""

def buildPredictionRequest [Zero F] (endpointRoleLabel : String) (metadata : EndpointMetadata) (metrics : Metrics F)
    (prompt : String) (generatedTokens : Int) (prefixCacheScore : F) : PredictionRequest F where
  kvCachePercentage := metrics.kvCacheUsagePercent
  inputTokenLength := fieldCount prompt
  numRequestWaiting := metrics.waitingQueueSize
  numRequestRunning := metrics.runningRequestsSize
  numTokensGenerated := generatedTokens
  prefixCacheScore := prefixCacheScore
  podType := if endpointRoleLabel ≠ "" then metadata.label endpointRoleLabel else ""
  prefillTokensInFlight := 0
  decodeTokensInFlight := 0

/-- What is prepared for one candidate. -/
structure Candidate (F : Type) where
  metrics : Option (Metrics F)
  metadata : EndpointMetadata
  prompt : String
  generatedTokens : Int
  prefixCacheScore : F
  prefillTokensInFlight : Int

variable [LT F] [DecidableLT F] [Zero F] [One F] [ToString F]

def Candidate.request (endpointRoleLabel : String) (c : Candidate F) (metrics : Metrics F) : PredictionRequest F :=
  { buildPredictionRequest endpointRoleLabel c.metadata metrics c.prompt c.generatedTokens c.prefixCacheScore with
    prefillTokensInFlight := c.prefillTokensInFlight }

/-- The requests, unless a candidate has no metrics; that one's index otherwise. -/
def buildRequests (endpointRoleLabel : String) : Nat → List (Candidate F) → Except Nat (List (PredictionRequest F))
  | _, [] => .ok []
  | i, c :: cs =>
    match c.metrics with
    | none => .error i
    | some metrics => (buildRequests endpointRoleLabel (i + 1) cs).map (c.request endpointRoleLabel metrics :: ·)

/-- The slices come from one loop, so their lengths agree, and that loop has read the metadata. -/
def bulkPredictWithMetrics (s : PredictedLatency F) (config : PredictorConfig) (server : Server F) (coalescing : Coalescing F)
    (candidates : List (Candidate F)) : Except Panic (Except String (List (PredictionResponse F))) :=
  if candidates.length = 0 then .ok (.ok [])
  else
    match buildRequests s.endpointRoleLabel 0 candidates with
    | .error i => .ok (.error s!"metrics state at index {i} cannot be nil")
    | .ok bulkRequests =>
      match predictBulkStrict config server coalescing bulkRequests with
      | .error err => .ok (.error err)
      | .ok results =>
        -- the trace names the request of every prediction
        if s.trace then (forRange (fun i _ => (index bulkRequests i).map fun _ => ()) 0 results).map fun _ => .ok results
        else .ok (.ok results)

section Results
variable [Sub F] [Mul F] [Min F]

structure Validity (F : Type) where
  ttftOk : Bool
  tpotOk : Bool
  isValid : Bool
  headroom : F
  ttftHeadroom : F

variable (s : PredictedLatency F)

variable (ctx : PredictedLatencyCtx F)

def validatePrediction (pred : PredictionResponse F) (podMinTPOTSLO : F) :
    Validity F :=
  let ttftOk := decide (pred.ttft < ctx.ttftSLO)
  let ttftHeadroom := ctx.ttftSLO - pred.ttft
  if s.streamingMode then
    let bufferedTPOT := ctx.avgTPOTSLO * s.sloBufferFactor
    let bufferedTPOT := if 0 < podMinTPOTSLO then min bufferedTPOT (podMinTPOTSLO * s.sloBufferFactor) else bufferedTPOT
    let tpotOk := decide (pred.tpot < bufferedTPOT)
    ⟨ttftOk, tpotOk, ttftOk && tpotOk, bufferedTPOT - pred.tpot, ttftHeadroom⟩
  else ⟨ttftOk, true, ttftOk, 0, ttftHeadroom⟩

def hasPrefillRole (roleLabel : String) (metadata : EndpointMetadata) : Bool :=
  roleLabel ≠ "" ∧ metadata.label roleLabel = "prefill"

/-- The first loop of `generatePredictions` at one endpoint. -/
def prepare (endpoint : Endpoint F) : Except Panic (Candidate F) :=
  match endpoint.metadata with
  | none => .error .nilDereference
  | some metadata => .ok {
      metrics := endpoint.metrics
      metadata := metadata
      prompt := ctx.promptText
      generatedTokens := 1
      prefixCacheScore := ctx.prefixCacheScoresForEndpoints metadata.namespacedName.name
      prefillTokensInFlight := s.prefillTokensInFlight metadata.namespacedName }

/-- The second loop: the result for a candidate and its prediction. -/
def resultOf (endpoint : Endpoint F) (c : Candidate F)
    (prediction : PredictionResponse F) : EndpointPredictionResult F :=
  let v := validatePrediction s ctx prediction (s.endpointMinTPOTSLO c.metadata.namespacedName)
  let neutral := !s.streamingMode || hasPrefillRole s.endpointRoleLabel c.metadata
  { endpoint := endpoint
    ttft := prediction.ttft
    tpot := prediction.tpot
    ttftValid := v.ttftOk
    tpotValid := if neutral then true else v.tpotOk
    isValid := if neutral then v.ttftOk else v.isValid
    headroom := if neutral then 0 else v.headroom
    ttftHeadroom := v.ttftHeadroom
    prefixCacheScore := c.prefixCacheScore }

variable (config : PredictorConfig)

def generatePredictions (server : Server F)
    (coalescing : Coalescing F) (candidateEndpoints : List (Endpoint F)) :
    Except Panic (Except String (List (EndpointPredictionResult F))) := do
  let candidates ← forRange (fun _ e => prepare s ctx e) 0 candidateEndpoints
  match ← bulkPredictWithMetrics s config server coalescing candidates with
  | .error err => .ok (.error err)
  | .ok bulkPredictions =>
    (forRange (fun i (x : Endpoint F × Candidate F) => (index bulkPredictions i).map (resultOf s ctx x.1 x.2)) 0
      (candidateEndpoints.zip candidates)).map .ok

/-! ## The prediction for a candidate -/

/-- The server's prediction for the `i`-th of these requests, wherever they stand in what is sent. -/
def predictionFor (server : Server F) (coalescing : Coalescing F)
    (requests : List (PredictionRequest F)) (i : Nat) : Option (PredictionResponse F) :=
  if config.coalesceWindow > 0 then
    match coalescing with
    | .abandoned _ => none
    | .batch earlier later =>
      (server (earlier.flatten ++ requests ++ later.flatten)).toOption.bind fun answer => answer[earlier.flatten.length + i]?
  else (server requests).toOption.bind fun answer => answer[i]?

/-- The requests for the candidates, where all of them have metadata and metrics. -/
def requestsFor (candidateEndpoints : List (Endpoint F)) :
    Option (List (PredictionRequest F)) :=
  (forRange (fun _ e => prepare s ctx e) 0 candidateEndpoints).toOption.bind fun candidates =>
    (buildRequests s.endpointRoleLabel 0 candidates).toOption

/-- An error, or for every candidate one result, in their order, made from its own prediction. -/
def OnePerCandidate (server : Server F)
    (coalescing : Coalescing F) (candidateEndpoints : List (Endpoint F))
    (res : Except Panic (Except String (List (EndpointPredictionResult F)))) : Prop :=
  ∃ r, res = .ok r ∧ ∀ results, r = .ok results →
    results.length = candidateEndpoints.length ∧ ∀ i e, candidateEndpoints[i]? = some e →
      ∃ requests c prediction, requestsFor s ctx candidateEndpoints = some requests ∧ prepare s ctx e = .ok c ∧
        predictionFor config server coalescing requests i = some prediction ∧ results[i]? = some (resultOf s ctx e c prediction)

/-- Every candidate has metadata; and coalescing is on, or an answer to the requests for the
candidates, if they are sent, is no shorter than they are, and with the trace on no longer. -/
def Matched (server : Server F)
    (candidateEndpoints : List (Endpoint F)) : Prop :=
  (∀ e ∈ candidateEndpoints, e.metadata.isSome) ∧
    (config.coalesceWindow > 0 ∨ ∀ requests answer, requestsFor s ctx candidateEndpoints = some requests →
      refusal config requests = none → server requests = .ok answer →
        candidateEndpoints.length ≤ answer.length ∧ (s.trace → answer.length ≤ candidateEndpoints.length))

end Results

end InferenceGateway.Predictor
