import InferenceGateway.Lib.Panics
/-!
# Bulk predictions

`PredictBulkStrict`, and the batches of `coalescer.go`. The prediction server is a
function from the requests sent to its answer, which may be of any length. With
coalescing on, a caller's requests go out in one call with those of other callers,
and each caller gets back their part of the answer.

Numbers are of any type with the operations used.
-/

namespace InferenceGateway.Predictor

open List

structure PredictionRequest (F : Type) where
  kvCachePercentage : F
  inputTokenLength : Int
  numRequestWaiting : Int
  numRequestRunning : Int
  numTokensGenerated : Int
  prefixCacheScore : F
  podType : String
  prefillTokensInFlight : Int
  decodeTokensInFlight : Int

structure PredictionResponse (F : Type) where
  ttft : F
  tpot : F
deriving DecidableEq

/-- The configuration of the predictor. -/
structure PredictorConfig where
  maxBulkSize : Int
  /-- Nanoseconds; coalescing is off at zero. -/
  coalesceWindow : Int

/-- What a call of `doPredictBulkStrictHTTP` comes to. -/
abbrev Server (F : Type) := List (PredictionRequest F) → Except String (List (PredictionResponse F))

/-- What happens to a submission to the coalescer. -/
inductive Coalescing (F : Type) where
  /-- The context is done, or the predictor shuts down. -/
  | abandoned (err : String)
  /-- It goes out between other submissions. -/
  | batch (earlier later : List (List (PredictionRequest F)))

variable {F : Type}

/-- The results of the callers, with their parts of the answer one after the other. -/
def fanOut (predictions : List (PredictionResponse F)) : Nat → List (List (PredictionRequest F)) →
    List (Except String (List (PredictionResponse F)))
  | _, [] => []
  | start, sub :: submissions =>
    let stop := start + sub.length
    let len := predictions.length
    (if stop > predictions.length then
      .error s!"coalesced response too short: expected items [{start}:{stop}] but got {len} predictions"
    else .ok ((predictions.drop start).take sub.length)) :: fanOut predictions stop submissions

def dispatchBatch (server : Server F) (submissions : List (List (PredictionRequest F))) :
    List (Except String (List (PredictionResponse F))) :=
  match server submissions.flatten with
  | .error err => submissions.map fun _ => .error err
  | .ok predictions => fanOut predictions 0 submissions

/-- The caller gets the result of their own submission; there is one for every submission of a batch. -/
def submitCoalesced (server : Server F) (requests : List (PredictionRequest F)) :
    Coalescing F → Except String (List (PredictionResponse F))
  | .abandoned err => .error err
  | .batch earlier later => ((dispatchBatch server (earlier ++ requests :: later))[earlier.length]?).getD (.error "")

/-! ## Validation -/

section Validation
variable [LT F] [DecidableLT F] [Zero F] [One F] [ToString F]

/-- The error for a field outside of its range. -/
def validatePredictionRequest (req : PredictionRequest F) : Option String :=
  if req.kvCachePercentage < 0 ∨ 1 < req.kvCachePercentage then
    some ("kv_cache_percentage must be between 0.0 and 1.0, got " ++ toString req.kvCachePercentage)
  else if req.inputTokenLength < 0 then
    some ("input_token_length must be non-negative, got " ++ toString req.inputTokenLength)
  else if req.numRequestWaiting < 0 then
    some ("num_request_waiting must be non-negative, got " ++ toString req.numRequestWaiting)
  else if req.numRequestRunning < 0 then
    some ("num_request_running must be non-negative, got " ++ toString req.numRequestRunning)
  else if req.numTokensGenerated < 0 then
    some ("num_tokens_generated must be non-negative, got " ++ toString req.numTokensGenerated)
  else if req.prefixCacheScore < 0 ∨ 1 < req.prefixCacheScore then
    some ("prefix_cache_score must be between 0.0 and 1.0, got " ++ toString req.prefixCacheScore)
  else none

/-- The first request that is not valid. -/
def validateAll : Nat → List (PredictionRequest F) → Option String
  | _, [] => none
  | i, req :: requests =>
    match validatePredictionRequest req with
    | some err => some (s!"validation failed for request {i}: " ++ err)
    | none => validateAll (i + 1) requests

/-- The checks before anything is sent. -/
def refusal (config : PredictorConfig) (requests : List (PredictionRequest F)) : Option String :=
  let n := requests.length
  let most := config.maxBulkSize
  if n = 0 then some "no prediction requests provided"
  else if n > config.maxBulkSize then some s!"too many requests: {n} (max: {most})"
  else validateAll 0 requests

def predictBulkStrict (config : PredictorConfig) (server : Server F) (coalescing : Coalescing F)
    (requests : List (PredictionRequest F)) : Except String (List (PredictionResponse F)) :=
  match refusal config requests with
  | some err => .error err
  | none => if config.coalesceWindow > 0 then submitCoalesced server requests coalescing else server requests

end Validation

/-! ## A caller's part of the answer -/

theorem fanOut_getElem? (predictions : List (PredictionResponse F)) (requests : List (PredictionRequest F))
    (later : List (List (PredictionRequest F))) : ∀ (earlier : List (List (PredictionRequest F))) (start : Nat),
    (fanOut predictions start (earlier ++ requests :: later))[earlier.length]? =
      (fanOut predictions (start + earlier.flatten.length) (requests :: later))[0]? := by
  intro earlier
  induction earlier with
  | nil => exact fun _ => rfl
  | cons sub earlier ih =>
    intro start
    rw [flatten_cons, length_append, ← Nat.add_assoc]
    exact ih (start + sub.length)

/-- What is handed to a caller is as long as what they have sent, and the part of the
answer that stands where their requests stood. -/
theorem submitCoalesced_ok {server : Server F} {requests : List (PredictionRequest F)} {coalescing : Coalescing F}
    {predictions : List (PredictionResponse F)} (h : submitCoalesced server requests coalescing = .ok predictions) :
    ∃ earlier later answer, coalescing = .batch earlier later ∧
      server (earlier.flatten ++ requests ++ later.flatten) = .ok answer ∧ predictions.length = requests.length ∧
      predictions = (answer.drop earlier.flatten.length).take requests.length := by
  cases coalescing with
  | abandoned err => cases h
  | batch earlier later =>
    have hflat : (earlier ++ requests :: later).flatten = earlier.flatten ++ requests ++ later.flatten := by
      rw [flatten_append, flatten_cons, append_assoc]
    simp only [submitCoalesced, dispatchBatch, hflat] at h
    cases hs : server (earlier.flatten ++ requests ++ later.flatten) with
    | error err =>
      rw [hs] at h
      simp at h
    | ok answer =>
      rw [hs] at h
      simp only [fanOut_getElem?, Nat.zero_add] at h
      unfold fanOut at h
      simp only [List.getElem?_cons_zero, Option.getD_some] at h
      split at h
      · cases h
      · rename_i hlen
        cases h
        refine ⟨earlier, later, answer, rfl, hs, ?_, rfl⟩
        rw [length_take, length_drop]
        omega

end InferenceGateway.Predictor
