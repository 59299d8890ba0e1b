import InferenceGateway.Lib.Panics
import InferenceGateway.Lib.Table
import InferenceGateway.Parsers.Json
/-!
# The stream between proxy and endpoint picker

The messages of the external processing protocol, as far as they are read and written,
and the `RequestContext` that `Process` keeps for a stream. The texts of headers and
the bytes they are sent as are not told apart.
-/

namespace InferenceGateway.Handlers

open Lib Parsers List

/-! ## Errors -/

inductive ErrorCode where
  | unknown
  | badRequest
  | unauthorized
  | forbidden
  | notFound
  | internal
  | serviceUnavailable
  | modelServerError
  | resourceExhausted
deriving DecidableEq, Repr

def ErrorCode.text : ErrorCode → String
  | unknown => "Unknown"
  | badRequest => "BadRequest"
  | unauthorized => "Unauthorized"
  | forbidden => "Forbidden"
  | notFound => "NotFound"
  | internal => "Internal"
  | serviceUnavailable => "ServiceUnavailable"
  | modelServerError => "ModelServerError"
  | resourceExhausted => "ResourceExhausted"

structure Error where
  code : ErrorCode
  msg : String
deriving DecidableEq, Repr

def Error.error (e : Error) : String := "inference error: " ++ e.code.text ++ " - " ++ e.msg

/-- The two ways in which a function leaves its caller nothing to go on with. -/
inductive Stop where
  | err (e : Error)
  | panic (p : Panic)
deriving DecidableEq, Repr

/-! ## Messages -/

structure HeaderValue where
  key : String
  value : String
  rawValue : String
deriving DecidableEq, Repr

def getHeaderValue (header : HeaderValue) : String := if header.rawValue ≠ "" then header.rawValue else header.value

/-- A map of headers by their keys as they are written. -/
abbrev HeaderMap := Table String String

/-- A message of the proxy. -/
inductive Message where
  | requestHeaders (headers : List HeaderValue) (endOfStream : Bool)
  | requestBody (body : List UInt8) (endOfStream : Bool)
  | requestTrailers
  | responseHeaders (headers : List HeaderValue) (endOfStream : Bool)
  | responseBody (body : List UInt8) (endOfStream : Bool)
  | responseTrailers
deriving DecidableEq, Repr

/-- A value of a `structpb.Struct`. -/
inductive StructValue where
  | str (s : String)
  | struct (fields : List (String × StructValue))

/-- The fields of a struct; of a key the last one counts. -/
abbrev Struct := List (String × StructValue)

structure HeaderMutation where
  setHeaders : List (String × String)
  removeHeaders : List String
deriving DecidableEq, Repr

structure StreamedBodyResponse where
  body : List UInt8
  endOfStream : Bool
deriving DecidableEq, Repr

/-- A message to the proxy. -/
inductive ProcessingResponse where
  | requestHeaders (mutation : HeaderMutation) (dynamicMetadata : Struct)
  | requestBody (chunk : StreamedBodyResponse)
  | requestTrailers
  | responseHeaders (mutation : HeaderMutation)
  | responseBody (chunk : StreamedBodyResponse) (dynamicMetadata : Option Struct)
  | responseTrailers
  | immediateResponse (status : Nat) (body : String)

/-- The status, where there is one for the code, and the text of the error. -/
def buildErrResponse (err : Error) : Option ProcessingResponse :=
  match err.code with
  | .badRequest => some (.immediateResponse 400 err.error)
  | .unauthorized => some (.immediateResponse 401 err.error)
  | .forbidden => some (.immediateResponse 403 err.error)
  | .notFound => some (.immediateResponse 404 err.error)
  | .resourceExhausted => some (.immediateResponse 429 err.error)
  | .internal => some (.immediateResponse 500 err.error)
  | .serviceUnavailable => some (.immediateResponse 503 err.error)
  | .unknown | .modelServerError => none

/-! ## Bodies in chunks -/

def bodyByteLimit : Nat := 62000

/-- The loop from `startingIndex` on. -/
def chunksFrom (bodyBytes : List UInt8) (setEos : Bool) (startingIndex : Nat) : List StreamedBodyResponse :=
  if _ : startingIndex < bodyBytes.length then
    let len := min (bodyBytes.length - startingIndex) bodyByteLimit
    ⟨(bodyBytes.drop startingIndex).take len, setEos && decide (bodyBytes.length ≤ len + startingIndex)⟩ ::
      chunksFrom bodyBytes setEos (startingIndex + len)
  else []
termination_by bodyBytes.length - startingIndex
decreasing_by simp only [bodyByteLimit]; omega

def buildChunkedBodyResponses (bodyBytes : List UInt8) (setEos : Bool) : List StreamedBodyResponse :=
  if bodyBytes.length = 0 then [⟨bodyBytes, setEos⟩] else chunksFrom bodyBytes setEos 0

def generateRequestBodyResponses (requestBodyBytes : List UInt8) : List ProcessingResponse :=
  (buildChunkedBodyResponses requestBodyBytes true).map .requestBody

/-- The metadata go with the last response. -/
def attachMetadata (dynamicMetadata : Option Struct) : List StreamedBodyResponse → List ProcessingResponse
  | [] => []
  | [chunk] => [.responseBody chunk dynamicMetadata]
  | chunk :: chunks => .responseBody chunk none :: attachMetadata dynamicMetadata chunks

def generateResponseBodyResponses (responseBodyBytes : List UInt8) (setEoS : Bool) (dynamicMetadata : Option Struct) :
    List ProcessingResponse :=
  attachMetadata dynamicMetadata (buildChunkedBodyResponses responseBodyBytes setEoS)

theorem chunksFrom_flatten (bodyBytes : List UInt8) (setEos : Bool) (i : Nat) :
    ((chunksFrom bodyBytes setEos i).map StreamedBodyResponse.body).flatten = bodyBytes.drop i := by
  fun_induction chunksFrom bodyBytes setEos i with
  | case1 i h len ih =>
    rw [map_cons, flatten_cons, ih, ← drop_drop]
    exact take_append_drop ..
  | case2 i h =>
    rw [drop_eq_nil_of_le (Nat.not_lt.1 h)]
    rfl

/-- The chunks of a body are the body. -/
theorem buildChunkedBodyResponses_flatten (bodyBytes : List UInt8) (setEos : Bool) :
    ((buildChunkedBodyResponses bodyBytes setEos).map StreamedBodyResponse.body).flatten = bodyBytes := by
  unfold buildChunkedBodyResponses
  split
  · simp
  · exact chunksFrom_flatten bodyBytes setEos 0

/-! ## Parts of an answer -/

inductive Direction where
  | request
  | response
deriving DecidableEq, Repr

inductive Kind where
  | headers
  | body
  | trailers
deriving DecidableEq, Repr

/-- What a message to the proxy answers. -/
def ProcessingResponse.part : ProcessingResponse → Option (Direction × Kind)
  | requestHeaders .. => some (.request, .headers)
  | requestBody .. => some (.request, .body)
  | requestTrailers => some (.request, .trailers)
  | responseHeaders .. => some (.response, .headers)
  | responseBody .. => some (.response, .body)
  | responseTrailers => some (.response, .trailers)
  | immediateResponse .. => none

/-- The bytes that go on to the backend. -/
def ProcessingResponse.requestBytes : ProcessingResponse → List UInt8
  | requestBody chunk => chunk.body
  | _ => []

theorem generateRequestBodyResponses_part (body : List UInt8) :
    ∀ r ∈ generateRequestBodyResponses body, r.part = some (.request, .body) := by
  intro r hr
  obtain ⟨chunk, _, rfl⟩ := List.mem_map.1 hr
  rfl

theorem generateRequestBodyResponses_bytes (body : List UInt8) :
    ((generateRequestBodyResponses body).map ProcessingResponse.requestBytes).flatten = body := by
  rw [generateRequestBodyResponses, map_map]
  exact buildChunkedBodyResponses_flatten body true

theorem attachMetadata_part (metadata : Option Struct) : ∀ chunks : List StreamedBodyResponse,
    ∀ r ∈ attachMetadata metadata chunks, r.part = some (.response, .body)
  | [] => nofun
  | [chunk] => by
    intro r hr
    rw [mem_singleton.1 hr]
    rfl
  | chunk :: chunk' :: chunks => by
    intro r hr
    rcases mem_cons.1 hr with rfl | hr
    · rfl
    · exact attachMetadata_part metadata (chunk' :: chunks) r hr

/-! ## The context of a request -/

structure EndpointMetadata where
  address : String
  port : String
deriving DecidableEq, Repr

/-- What the scheduler gets; of the body only `Stream` is read afterwards. -/
structure LLMRequest where
  requestId : String
  targetModel : String
  stream : Bool
  headers : HeaderMap
  priority : Int
  requestSizeBytes : Nat

structure Request where
  headers : HeaderMap
  rawBody : List UInt8

structure Response where
  headers : HeaderMap
  dynamicMetadata : Option Struct

inductive StreamRequestState where
  | requestReceived
  | headerRequestResponseComplete
  | bodyRequestResponsesComplete
  | trailerRequestResponsesComplete
  | responseReceived
  | headerResponseResponseComplete
  | bodyResponseResponsesComplete
  | trailerResponseResponsesComplete
deriving DecidableEq, Repr

structure RequestContext where
  targetPod : Option EndpointMetadata
  targetEndpoint : String
  incomingModelName : String
  targetModelName : String
  fairnessID : String
  objectiveKey : String
  priority : Int
  requestSize : Nat
  usage : Usage
  responseSize : Nat
  responseComplete : Bool
  /-- `none` is the empty string. -/
  responseStatusCode : Option ErrorCode
  requestRunning : Bool
  request : Request
  schedulingRequest : Option LLMRequest
  requestState : StreamRequestState
  modelServerStreaming : Bool
  response : Response
  reqHeaderResp : Option ProcessingResponse
  reqBodyResp : List ProcessingResponse
  reqTrailerResp : Option ProcessingResponse
  respHeaderResp : Option ProcessingResponse
  respBodyResp : List ProcessingResponse
  respTrailerResp : Option ProcessingResponse

/-- The context a stream starts with. -/
def RequestContext.new : RequestContext where
  targetPod := none
  targetEndpoint := ""
  incomingModelName := ""
  targetModelName := ""
  fairnessID := ""
  objectiveKey := ""
  priority := 0
  requestSize := 0
  usage := ⟨0, 0, 0, none⟩
  responseSize := 0
  responseComplete := false
  responseStatusCode := none
  requestRunning := false
  request := ⟨∅, []⟩
  schedulingRequest := none
  requestState := .requestReceived
  modelServerStreaming := false
  response := ⟨∅, none⟩
  reqHeaderResp := none
  reqBodyResp := []
  reqTrailerResp := none
  respHeaderResp := none
  respBodyResp := []
  respTrailerResp := none

end InferenceGateway.Handlers
