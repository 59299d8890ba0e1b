import InferenceGateway.Lib.Fields
import InferenceGateway.RequestControl.Director
/-!
# Headers in and out

`request.go`, the header part of `response.go`, and what a proxy makes of the header
mutation it gets back. The keys that are compared are ASCII, so are the names of
headers, and lower case is that of ASCII.
-/

namespace InferenceGateway.Handlers

open Lib RequestControl List HeaderMutation

/-! ## Names -/

def subsetFilterKey : String := "x-gateway-destination-endpoint-subset"
def destinationEndpointNamespace : String := "envoy.lb"
def destinationEndpointKey : String := "x-gateway-destination-endpoint"
def destinationEndpointServedKey : String := "x-gateway-destination-endpoint-served"
def flowFairnessIDKey : String := "x-gateway-inference-fairness-id"
def objectiveKey : String := "x-gateway-inference-objective"
def modelNameRewriteKey : String := "x-gateway-model-name-rewrite"
def defaultFairnessID : String := "default-flow"

def inputControlHeaders : List String :=
  [flowFairnessIDKey.toLower, objectiveKey.toLower, modelNameRewriteKey.toLower, subsetFilterKey.toLower]

def outputInjectionHeaders : List String := [destinationEndpointKey.toLower, destinationEndpointServedKey.toLower]

def protocolHeaders : List String := ["content-length"]

def isSystemOwnedHeader (key : String) : Bool :=
  key.toLower ∈ inputControlHeaders ∨ key.toLower ∈ outputInjectionHeaders ∨ key.toLower ∈ protocolHeaders

/-! ## The request's headers -/

/-- The lookup does not look at the case. -/
def extractHeaderValue (headers : List HeaderValue) (headerKey : String) : String :=
  ((headers.find? fun h => h.key.toLower = headerKey.toLower).map getHeaderValue).getD ""

/-- A request without an id gets one. -/
def ensureRequestID (requestID : String) (headers : List HeaderValue) (reqCtx : RequestContext) : RequestContext :=
  if extractHeaderValue headers requestIdHeaderKey = "" then
    { reqCtx with request := { reqCtx.request with headers := reqCtx.request.headers.insert requestIdHeaderKey requestID } }
  else reqCtx

variable (reqCtx : RequestContext)

/-- One turn of the loop over the headers of a request. -/
def readHeader (header : HeaderValue) : RequestContext :=
  let reqCtx := { reqCtx with
    request := { reqCtx.request with headers := reqCtx.request.headers.insert header.key (getHeaderValue header) } }
  if header.key = flowFairnessIDKey then { reqCtx with fairnessID := getHeaderValue header }
  else if header.key = objectiveKey then { reqCtx with objectiveKey := getHeaderValue header }
  else if header.key = modelNameRewriteKey then { reqCtx with targetModelName := getHeaderValue header }
  else reqCtx

/-- The headers that the propagators, of trace context and baggage, write. -/
structure TraceContext where
  traceparent : Option String
  tracestate : Option String
  baggage : Option String
deriving DecidableEq, Repr

def TraceContext.inject (t : TraceContext) : List (String × String) :=
  (t.traceparent.map ("traceparent", ·)).toList ++ (t.tracestate.map ("tracestate", ·)).toList ++
    (t.baggage.map ("baggage", ·)).toList

/-- The headers in a map that are not the system's own. -/
def foreignHeaders (headers : HeaderMap) : List (String × String) :=
  (headers.entries.filter fun e => ¬ isSystemOwnedHeader e.1).map fun e => (e.1, e.2)

def generateHeaders (trace : TraceContext) (reqCtx : RequestContext) : List (String × String) :=
  [(destinationEndpointKey, reqCtx.targetEndpoint)] ++
    (if 0 < reqCtx.requestSize then [("Content-Length", toString reqCtx.requestSize)] else []) ++
    trace.inject ++ foreignHeaders reqCtx.request.headers

def generateMetadata (endpoint : String) : Struct :=
  [(destinationEndpointNamespace, .struct [(destinationEndpointKey, .str endpoint)])]

def generateRequestHeaderResponse (trace : TraceContext) (reqCtx : RequestContext) : ProcessingResponse :=
  .requestHeaders ⟨generateHeaders trace reqCtx, []⟩
    (generateMetadata reqCtx.targetEndpoint ++ reqCtx.response.dynamicMetadata.getD [])

/-- A request without a body goes to any endpoint, and its headers are not read. -/
def handleRequestHeaders (trace : TraceContext) (endpoint : Option EndpointMetadata) (reqCtx : RequestContext)
    (headers : List HeaderValue) (endOfStream : Bool) : RequestContext × Except Stop Unit :=
  if endOfStream then
    match endpoint with
    | none => (reqCtx, .error (.err ⟨.internal, "no pods available in datastore"⟩))
    | some endpoint =>
      let reqCtx := { reqCtx with targetEndpoint := endpoint.address ++ ":" ++ endpoint.port, requestSize := 0 }
      ({ reqCtx with reqHeaderResp := some (generateRequestHeaderResponse trace reqCtx) }, .ok ())
  else
    let reqCtx := headers.foldl readHeader reqCtx
    ({ reqCtx with fairnessID := if reqCtx.fairnessID = "" then defaultFairnessID else reqCtx.fairnessID }, .ok ())

/-! ## The response's headers -/

/-- One turn of the loop that looks for a failure and for a stream. -/
def readResponseHeader (header : HeaderValue) : RequestContext :=
  if header.key = "status" ∧ header.rawValue ≠ "200" then { reqCtx with responseStatusCode := some .modelServerError }
  else if header.key = "content-type" ∧ "text/event-stream".toList <:+: header.rawValue.toList then
    { reqCtx with modelServerStreaming := true }
  else reqCtx

/-- `HandleResponseHeaders`, before the director's plugins. -/
def storeResponseHeader (header : HeaderValue) : RequestContext :=
  { reqCtx with
    response := { reqCtx.response with headers := reqCtx.response.headers.insert header.key (getHeaderValue header) } }

def generateResponseHeaders : List (String × String) :=
  ("x-went-into-resp-headers", "true") :: foreignHeaders reqCtx.response.headers

def generateResponseHeaderResponse : ProcessingResponse :=
  .responseHeaders ⟨generateResponseHeaders reqCtx, []⟩

/-! ## What a proxy makes of a mutation -/

/-- The headers of a message with their values. -/
def fieldsOf (headers : List HeaderValue) : List (String × String) := headers.map fun h => (h.key, getHeaderValue h)

/-- Headers are removed and set by their names, whatever the case. -/
def HeaderMutation.apply (m : HeaderMutation) (headers : List (String × String)) : List (String × String) :=
  m.setHeaders.foldl (put String.toLower) (m.removeHeaders.foldl (without String.toLower) headers)

/-- What a backend should get: the endpoint chosen as the destination, the length of a body
that is not empty, and no control header. -/
def Delivered (headers : List (String × String)) (endpoint : String) (body : List UInt8) : Prop :=
  values String.toLower headers destinationEndpointKey = [endpoint] ∧
    (body ≠ [] → values String.toLower headers "content-length" = [toString body.length]) ∧
      ∀ name ∈ inputControlHeaders, values String.toLower headers name = []

/-- None of the headers controls the endpoint picker. -/
def Uncontrolled (headers : List HeaderValue) : Prop := ∀ h ∈ headers, h.key.toLower ∉ inputControlHeaders

section Mutation

variable {trace : TraceContext} {c : RequestContext} {name : String}

theorem isSystemOwnedHeader_iff {key : String} : isSystemOwnedHeader key = true ↔
    key.toLower ∈ inputControlHeaders ∨ key.toLower ∈ outputInjectionHeaders ∨ key.toLower ∈ protocolHeaders := by
  simp [isSystemOwnedHeader]

/-- The names the system owns. -/
def owned (name : String) : Prop := name ∈ inputControlHeaders ∨ name ∈ outputInjectionHeaders ∨ name ∈ protocolHeaders

theorem foreignHeaders_ne (headers : HeaderMap) (h : owned name) : ∀ f ∈ foreignHeaders headers, f.1.toLower ≠ name := by
  intro f hf heq
  obtain ⟨e, he, rfl⟩ := List.mem_map.1 hf
  have hforeign := (mem_filter.1 he).2
  rw [decide_eq_true_eq] at hforeign
  refine hforeign (isSystemOwnedHeader_iff.2 ?_)
  rw [show e.1.toLower = name from heq]
  exact h

theorem inject_ne (trace : TraceContext) (h : owned name) : ∀ f ∈ trace.inject, f.1.toLower ≠ name := by
  have htrace : ∀ key ∈ ["traceparent", "tracestate", "baggage"], ¬ owned key.toLower := by
    unfold owned
    decide +kernel
  intro f hf heq
  have hkey : f.1 ∈ ["traceparent", "tracestate", "baggage"] := by
    simp only [TraceContext.inject, mem_append, Option.mem_toList, Option.map_eq_some_iff] at hf
    rcases hf with (⟨v, _, rfl⟩ | ⟨v, _, rfl⟩) | ⟨v, _, rfl⟩ <;> simp
  exact htrace f.1 hkey (heq ▸ h)

/-- A name of the system's own is set by the first two headers, if at all. -/
theorem generateHeaders_ne (trace : TraceContext) (c : RequestContext) (h : owned name) :
    ∀ f ∈ trace.inject ++ foreignHeaders c.request.headers, f.1.toLower ≠ name := by
  intro f hf
  rcases mem_append.1 hf with hf | hf
  · exact inject_ne trace h f hf
  · exact foreignHeaders_ne _ h f hf

theorem apply_destination (client : List (String × String)) :
    values String.toLower (apply ⟨generateHeaders trace c, []⟩ client) destinationEndpointKey =
      [c.targetEndpoint] := by
  have hlower : destinationEndpointKey.toLower = destinationEndpointKey := by decide +kernel
  have hlength : "Content-Length".toLower ≠ destinationEndpointKey.toLower := by decide +kernel
  have hother : ∀ f ∈ (if 0 < c.requestSize then [("Content-Length", toString c.requestSize)] else []) ++
      (trace.inject ++ foreignHeaders c.request.headers), f.1.toLower ≠ destinationEndpointKey.toLower := by
    intro f hf
    rcases mem_append.1 hf with hf | hf
    · split at hf
      · rw [mem_singleton.1 hf]
        exact hlength
      · cases hf
    · exact generateHeaders_ne trace c (.inr (.inl mem_cons_self)) f hf
  have hset := values_puts [] (destinationEndpointKey, c.targetEndpoint) hother client
  rw [hlower] at hset
  rw [apply, generateHeaders, append_assoc, append_assoc]
  exact hset

theorem apply_contentLength (h : 0 < c.requestSize) (client : List (String × String)) :
    values String.toLower (apply ⟨generateHeaders trace c, []⟩ client) "content-length" =
      [toString c.requestSize] := by
  have hlower : "Content-Length".toLower = "content-length" := by decide +kernel
  have hother : ∀ f ∈ trace.inject ++ foreignHeaders c.request.headers, f.1.toLower ≠ "Content-Length".toLower := by
    rw [hlower]
    exact generateHeaders_ne trace c (.inr (.inr mem_cons_self))
  have hset := values_puts [(destinationEndpointKey, c.targetEndpoint)] ("Content-Length", toString c.requestSize)
    hother client
  rw [hlower] at hset
  rw [apply, generateHeaders, if_pos h, append_assoc, append_assoc]
  exact hset

/-- Nothing is done about the control headers of the client. -/
theorem apply_control (h : name ∈ inputControlHeaders) (client : List (String × String)) :
    values String.toLower (apply ⟨generateHeaders trace c, []⟩ client) name =
      values String.toLower client name := by
  have hdest : ∀ name ∈ inputControlHeaders,
      destinationEndpointKey.toLower ≠ name ∧ "Content-Length".toLower ≠ name := by decide +kernel
  refine values_puts_of_ne (fun f hf => ?_) client
  rw [generateHeaders, append_assoc, append_assoc] at hf
  rcases mem_append.1 hf with hf | hf
  · rw [mem_singleton.1 hf]
    exact (hdest name h).1
  · rcases mem_append.1 hf with hf | hf
    · split at hf
      · rw [mem_singleton.1 hf]
        exact (hdest name h).2
      · cases hf
    · exact generateHeaders_ne trace c (.inl h) f hf

/-- With the size of the body in the context, all that can be wrong is a control header. -/
theorem delivered_iff {body : List UInt8} (h : c.requestSize = body.length) (client : List HeaderValue) :
    Delivered (apply ⟨generateHeaders trace c, []⟩ (fieldsOf client)) c.targetEndpoint body ↔
      Uncontrolled client := by
  have hlength : body ≠ [] → values String.toLower
      (apply ⟨generateHeaders trace c, []⟩ (fieldsOf client)) "content-length" = [toString body.length] := by
    intro hbody
    rw [← h]
    exact apply_contentLength (h ▸ length_pos_iff.2 hbody) _
  constructor
  · rintro ⟨_, _, hcontrol⟩ header hheader hname
    have hnil := hcontrol _ hname
    rw [apply_control hname, values_eq_nil] at hnil
    exact hnil _ (mem_map_of_mem hheader) rfl
  · intro hclient
    refine ⟨apply_destination _, hlength, fun name hname => ?_⟩
    rw [apply_control hname, values_eq_nil]
    intro f hf heq
    obtain ⟨header, hheader, rfl⟩ := List.mem_map.1 hf
    exact hclient header hheader (heq ▸ hname)

end Mutation

end InferenceGateway.Handlers
