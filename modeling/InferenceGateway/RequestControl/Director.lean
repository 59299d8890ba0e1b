import InferenceGateway.Handlers.RequestContext
import InferenceGateway.Parsers.Json
/-!
# The director's way to an endpoint

`HandleRequest` of `director.go`: the body is parsed, its model replaced and the body
written again; then the request is admitted, scheduled and given its endpoint. What
the parser, the datastore, the admission, the scheduler and the plugins answer is a
field each.
-/

namespace InferenceGateway.RequestControl

open Lib Parsers Handlers

variable {F : Type}

/-- The payload of a parsed body. -/
inductive Payload (F : Type) where
  | proto
  | map (bodyMap : List (String × Any F))
  | raw
  /-- None of these, or `nil`. -/
  | other

structure LLMRequestBody (F : Type) where
  payload : Payload F
  stream : Bool

structure SchedulingResult where
  profileResults : Table String (List EndpointMetadata)
  primaryProfileName : String

structure Director (F : Type) where
  /-- `parser.ParseRequest`. -/
  parseRequest : List UInt8 → HeaderMap → Except Panic (Except String (LLMRequestBody F))
  /-- The target drawn from the rewrite rule of a model, if it has one. -/
  modelRewrite : String → Option String
  /-- `json.Marshal`. -/
  marshal : List (String × Any F) → Option (List UInt8)
  /-- The objective of a key, with the priority it may have. -/
  objectiveGet : String → Option (Option Int)
  /-- The admission controller. -/
  admission : RequestContext → Int → Option Error
  /-- The candidates in the request's subset. -/
  locate : List EndpointMetadata
  admitRequest : LLMRequest → List EndpointMetadata → Bool
  schedule : LLMRequest → List EndpointMetadata → Except String (Option SchedulingResult)
  /-- The `PreRequest` plugins. -/
  preRequest : LLMRequest → SchedulingResult → Except Panic Unit
  getRandomEndpoint : Option EndpointMetadata
  /-- The dynamic metadata that the plugins called with a part of the response leave. -/
  responseBody : RequestContext → Bool → Option Struct

def requestIdHeaderKey : String := "x-request-id"

/-- An address with colons is put in brackets. -/
def joinHostPort (host port : String) : String :=
  if ':' ∈ host.toList then "[" ++ host ++ "]:" ++ port else host ++ ":" ++ port

namespace Director

variable (d : Director F)

variable (reqCtx : RequestContext)

def mutateModel (bodyMap : List (String × Any F)) :
    RequestContext × Except Stop (List (String × Any F)) :=
  match Any.get bodyMap "model" with
  | .str model =>
    let target := if reqCtx.targetModelName = "" then model else reqCtx.targetModelName
    let targetModelName := (d.modelRewrite model).getD target
    ({ reqCtx with incomingModelName := model, targetModelName := targetModelName },
      .ok ((bodyMap.filter fun e => e.1 ≠ "model") ++ [("model", .str targetModelName)]))
  | _ => ({ reqCtx with incomingModelName := "" }, .error (.err ⟨.badRequest, "model not found in request body"⟩))

def mutateAndRepackage (bodyMap : List (String × Any F)) :
    RequestContext × Except Stop (List (String × Any F)) :=
  match d.mutateModel reqCtx bodyMap with
  | (reqCtx, .error e) => (reqCtx, .error e)
  | (reqCtx, .ok bodyMap) =>
    match d.marshal bodyMap with
    | none => (reqCtx, .error (.err ⟨.internal, "Error marshalling request body"⟩))
    | some requestBodyBytes =>
      ({ reqCtx with
          request := { reqCtx.request with rawBody := requestBodyBytes }
          requestSize := requestBodyBytes.length }, .ok bodyMap)

def processRequestBody : RequestContext × Except Stop (LLMRequestBody F) :=
  match d.parseRequest reqCtx.request.rawBody reqCtx.request.headers with
  | .error p => (reqCtx, .error (.panic p))
  | .ok (.error msg) => (reqCtx, .error (.err ⟨.badRequest, msg⟩))
  | .ok (.ok llmRequestBody) =>
    match llmRequestBody.payload with
    | .proto | .raw => ({ reqCtx with requestSize := reqCtx.request.rawBody.length }, .ok llmRequestBody)
    | .map bodyMap =>
      match d.mutateAndRepackage reqCtx bodyMap with
      | (reqCtx, .error e) => (reqCtx, .error e)
      | (reqCtx, .ok bodyMap) => (reqCtx, .ok { llmRequestBody with payload := .map bodyMap })
    | .other => (reqCtx, .error (.err ⟨.badRequest, "Unsupported llmRequest parsedBody"⟩))

/-- The priority of the objective, or the default one. -/
def priorityOf (objectiveKey : String) : Int := ((d.objectiveGet objectiveKey).getD none).getD 0

def prepareRequest (request : LLMRequest) :
    Option SchedulingResult → RequestContext × Except Stop Unit
  | none => (reqCtx, .error (.err ⟨.internal, "results must be greater than zero"⟩))
  | some result =>
    if result.profileResults.entries = [] then
      (reqCtx, .error (.err ⟨.internal, "results must be greater than zero"⟩))
    else
      match result.profileResults.lookup result.primaryProfileName with
      | none => (reqCtx, .error (.panic .nilDereference))
      | some [] => (reqCtx, .error (.panic .indexOutOfRange))
      | some (target :: targets) =>
        let reqCtx := { reqCtx with
          targetPod := some target
          targetEndpoint := ",".intercalate ((target :: targets).map fun e => joinHostPort e.address e.port) }
        match d.preRequest request result with
        | .error p => (reqCtx, .error (.panic p))
        | .ok () => (reqCtx, .ok ())

/-- What the scheduler is given. -/
def assemble (llmRequestBody : LLMRequestBody F) : LLMRequest where
  requestId := (reqCtx.request.headers.lookup requestIdHeaderKey).getD ""
  targetModel := reqCtx.targetModelName
  stream := llmRequestBody.stream
  headers := reqCtx.request.headers
  priority := d.priorityOf reqCtx.objectiveKey
  requestSizeBytes := reqCtx.requestSize

/-- `HandleRequest` from the admission on. -/
def place (request : LLMRequest) : RequestContext × Except Stop Unit :=
  match d.admission reqCtx reqCtx.priority with
  | some e => (reqCtx, .error (.err e))
  | none =>
    if d.locate = [] then
      (reqCtx, .error (.err ⟨.serviceUnavailable, "failed to find endpoint candidates for serving the request"⟩))
    else if ¬ d.admitRequest request d.locate then
      (reqCtx, .error (.err ⟨.internal, "request cannot be admitted"⟩))
    else
      match d.schedule request d.locate with
      | .error msg => (reqCtx, .error (.err ⟨.resourceExhausted, "failed to find target endpoint: " ++ msg⟩))
      | .ok result => d.prepareRequest reqCtx request result

def handleRequest : RequestContext × Except Stop Unit :=
  match d.processRequestBody reqCtx with
  | (reqCtx, .error e) => (reqCtx, .error e)
  | (reqCtx, .ok llmRequestBody) =>
    let request := d.assemble reqCtx llmRequestBody
    d.place { reqCtx with priority := request.priority, schedulingRequest := some request } request

end Director

/-! ## What is left alone -/

variable (c : RequestContext)

/-- Everything of a context but what the director writes. -/
def kept : RequestContext :=
  { c with
    targetPod := none
    targetEndpoint := ""
    incomingModelName := ""
    targetModelName := ""
    priority := 0
    requestSize := 0
    request := ⟨c.request.headers, []⟩
    schedulingRequest := none }

namespace Director

variable {d : Director F}

theorem kept_mutateModel (bodyMap : List (String × Any F)) :
    kept (d.mutateModel c bodyMap).1 = kept c := by
  unfold mutateModel
  split <;> rfl

theorem kept_mutateAndRepackage (bodyMap : List (String × Any F)) :
    kept (d.mutateAndRepackage c bodyMap).1 = kept c := by
  rw [← kept_mutateModel (d := d) c bodyMap]
  unfold mutateAndRepackage
  rcases d.mutateModel c bodyMap with ⟨c', _ | bodyMap'⟩
  · rfl
  · dsimp only
    split <;> rfl

theorem kept_processRequestBody : kept (d.processRequestBody c).1 = kept c := by
  unfold processRequestBody
  split
  · rfl
  · rfl
  · split
    · rfl
    · rfl
    · rename_i bodyMap _
      rw [← kept_mutateAndRepackage (d := d) c bodyMap]
      split
      · rename_i h; rw [h]
      · rename_i h; rw [h]
    · rfl

theorem prepareRequest_cases (request : LLMRequest) (result : Option SchedulingResult) :
    (∃ e, d.prepareRequest c request result = (c, .error e)) ∨
      ∃ target endpoint r, d.prepareRequest c request result =
        ({ c with targetPod := some target, targetEndpoint := endpoint }, r) := by
  cases result with
  | none => exact .inl ⟨_, rfl⟩
  | some result =>
    rw [prepareRequest]
    split
    · exact .inl ⟨_, rfl⟩
    · split
      · exact .inl ⟨_, rfl⟩
      · exact .inl ⟨_, rfl⟩
      · right
        dsimp only
        split <;> exact ⟨_, _, _, rfl⟩

/-- A request is turned away, or it gets an endpoint. -/
theorem place_cases (request : LLMRequest) :
    (∃ e, d.place c request = (c, .error e)) ∨
      ∃ target endpoint r, d.place c request = ({ c with targetPod := some target, targetEndpoint := endpoint }, r) := by
  unfold place
  split
  · exact .inl ⟨_, rfl⟩
  · split
    · exact .inl ⟨_, rfl⟩
    · split
      · exact .inl ⟨_, rfl⟩
      · split
        · exact .inl ⟨_, rfl⟩
        · exact prepareRequest_cases ..

theorem kept_place (request : LLMRequest) : kept (d.place c request).1 = kept c := by
  rcases place_cases (d := d) c request with ⟨e, he⟩ | ⟨target, endpoint, r, hr⟩
  · rw [he]
  · rw [hr]; rfl

theorem kept_handleRequest : kept (d.handleRequest c).1 = kept c := by
  have hbody := kept_processRequestBody (d := d) c
  unfold handleRequest
  rcases h : d.processRequestBody c with ⟨c', _ | body⟩
  · rw [h] at hbody
    exact hbody
  · rw [h] at hbody
    exact (kept_place ..).trans hbody

variable {c c' : RequestContext}

theorem mutateAndRepackage_size {bodyMap bodyMap' : List (String × Any F)}
    (h : d.mutateAndRepackage c bodyMap = (c', .ok bodyMap')) : c'.requestSize = c'.request.rawBody.length := by
  unfold mutateAndRepackage at h
  split at h
  · cases h
  · split at h
    · cases h
    · cases h
      rfl

theorem processRequestBody_size {body : LLMRequestBody F} (h : d.processRequestBody c = (c', .ok body)) :
    c'.requestSize = c'.request.rawBody.length := by
  unfold processRequestBody at h
  split at h
  · cases h
  · cases h
  · split at h
    · cases h; rfl
    · cases h; rfl
    · split at h
      · cases h
      · rename_i hm
        cases h
        exact mutateAndRepackage_size hm
    · cases h

/-- A request that is handled has an endpoint, and its size is that of the body to be sent. -/
theorem handleRequest_ok (h : d.handleRequest c = (c', .ok ())) :
    c'.targetPod.isSome ∧ c'.requestSize = c'.request.rawBody.length := by
  unfold handleRequest at h
  rcases hbody : d.processRequestBody c with ⟨c₁, _ | body⟩
  · rw [hbody] at h
    cases h
  · have hsize := processRequestBody_size hbody
    rw [hbody] at h
    dsimp only at h
    generalize hc : { c₁ with
      priority := (d.assemble c₁ body).priority, schedulingRequest := some (d.assemble c₁ body) } = c₂ at h
    rcases place_cases (d := d) c₂ (d.assemble c₁ body) with ⟨e, he⟩ | ⟨target, endpoint, r, hr⟩
    · rw [he] at h
      cases h
    · rw [hr] at h
      cases h
      subst hc
      exact ⟨rfl, hsize⟩

end Director

end InferenceGateway.RequestControl
