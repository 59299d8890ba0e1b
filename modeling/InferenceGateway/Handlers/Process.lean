import InferenceGateway.Handlers.Headers
import InferenceGateway.Lib.Runs
/-!
# A stream from its first message to its last

`Process` of `server.go`: a loop that receives a message, changes the context, and
sends what has become ready, until the stream breaks off or something fails; then the
deferred function runs. Next to the context a stream has its history: the calls of the
director's response-body hook, the body responses made, and the messages sent.

A stream meets its proxy in a `Session`. In each direction the proxy sends headers,
then chunks of a body, then trailers if the last chunk was not marked as the end.
-/

namespace InferenceGateway.Handlers

open Lib Parsers RequestControl

/-! ## Model names in a body -/

/-- `bytes.ReplaceAll`, for an `old` that is not empty. -/
def replaceAll (old new : List UInt8) : List UInt8 → List UInt8
  | [] => []
  | b :: bs =>
    if old.isPrefixOf (b :: bs) then new ++ replaceAll old new (bs.drop (old.length - 1)) else b :: replaceAll old new bs
termination_by body => body.length
decreasing_by
  · simp only [List.length_drop, List.length_cons]; omega
  · simp

def modelField (before model : String) : List UInt8 := (before ++ model ++ "\"").toUTF8.data.toList

def rewriteModelName (body : List UInt8) (targetModel incomingModel : String) : List UInt8 :=
  if targetModel = "" ∨ incomingModel = "" ∨ targetModel = incomingModel then body
  else
    let result := replaceAll (modelField "\"model\":\"" targetModel) (modelField "\"model\":\"" incomingModel) body
    if result ≠ body then result
    else replaceAll (modelField "\"model\": \"" targetModel) (modelField "\"model\": \"" incomingModel) body

/-! ## The stream -/

variable {F : Type}

structure StreamingServer where
  ParseError : Type
  /-- `parser.ParseResponse`. -/
  parseResponse : List UInt8 → HeaderMap → Bool → Except Panic (Except ParseError (Option ParsedResponse))

/-- What the rest of the program and the transport do while a message is handled. -/
structure Answers (F : Type) where
  director : Director F
  trace : TraceContext
  /-- A new id for a request that has none. -/
  requestID : String
  /-- `Send` succeeds, after that many messages sent. -/
  canSend : Nat → Bool

/-- Where a hook is called from. -/
inductive Caller where
  | loop
  | cleanup
deriving DecidableEq, Repr

inductive Ending where
  /-- The context is done, or `Recv` fails. -/
  | disconnected
  | sendFailed
  /-- An error was answered, or could not be. -/
  | failed (e : Error)
  | panicked (p : Panic)
deriving DecidableEq, Repr

structure Stream where
  reqCtx : RequestContext
  body : List UInt8
  /-- The calls of the director's response-body hook, with their `endOfStream`. -/
  hooks : List (Caller × Bool)
  /-- The body responses made so far. -/
  generated : List ProcessingResponse
  sent : List ProcessingResponse
  ended : Option Ending

namespace Stream

def new : Stream := ⟨.new, [], [], [], [], none⟩

/-- A call of the director's `HandleResponseBody`. -/
def hook (st : Stream) (caller : Caller) (d : Director F) (endOfStream : Bool) : Stream :=
  { st with
    hooks := st.hooks ++ [(caller, endOfStream)]
    reqCtx := { st.reqCtx with
      response := { st.reqCtx.response with dynamicMetadata := d.responseBody st.reqCtx endOfStream } } }

def complete (st : Stream) : Stream := { st with reqCtx := { st.reqCtx with responseComplete := true } }

/-- The responses to be sent for a part of the response's body. -/
def respond (st : Stream) (responses : List ProcessingResponse) : Stream :=
  { st with reqCtx := { st.reqCtx with respBodyResp := responses }, generated := st.generated ++ responses }

/-- The deferred function. -/
def finish (st : Stream) (d : Director F) (ending : Ending) : Stream :=
  let st := { st with ended := some ending }
  if st.reqCtx.targetPod.isSome ∧ ¬ st.reqCtx.responseComplete then st.hook .cleanup d true else st

/-- The server's `HandleResponseBody`: the parser, then the hook. -/
def handleResponseBody (s : StreamingServer) (d : Director F) (responseBytes : List UInt8) (endOfStream : Bool)
    (st : Stream) : Stream × Except Stop Unit :=
  let reqCtx := { st.reqCtx with responseSize := st.reqCtx.responseSize + responseBytes.length }
  match s.parseResponse responseBytes reqCtx.response.headers endOfStream with
  | .error p => ({ st with reqCtx := reqCtx }, .error (.panic p))
  | .ok (.ok (some ⟨some usage⟩)) =>
    ({ st with reqCtx := { reqCtx with usage := usage } }.hook .loop d endOfStream, .ok ())
  | .ok _ => ({ st with reqCtx := reqCtx }.hook .loop d endOfStream, .ok ())

/-- What follows on a call that returned. -/
def andThen (r : Stream × Except Stop Unit) (f : Stream → Stream) : Stream × Except Stop Unit :=
  match r with
  | (st, .error e) => (st, .error e)
  | (st, .ok ()) => (f st, .ok ())

/-- The rewritten bytes, in chunks. -/
def respondWith (bytes : List UInt8) (setEos : Bool) (st : Stream) : Stream :=
  st.respond (generateResponseBodyResponses
    (rewriteModelName bytes st.reqCtx.targetModelName st.reqCtx.incomingModelName) setEos st.reqCtx.response.dynamicMetadata)

def finishResponse (s : StreamingServer) (d : Director F) (body : List UInt8) (modelStreaming setEos : Bool)
    (st : Stream) : Stream × Except Stop Unit :=
  if st.reqCtx.responseComplete then (st, .ok ())
  else andThen (st.complete.handleResponseBody s d body true) fun st =>
    if modelStreaming then st else st.respondWith body setEos

/-! ## One message -/

/-- The body of the request is complete. -/
def answerRequest (a : Answers F) (rawBody : List UInt8) (st : Stream) : Stream × Except Stop Unit :=
  match a.director.handleRequest { st.reqCtx with
    request := { st.reqCtx.request with rawBody := rawBody }, requestSize := rawBody.length } with
  | (reqCtx, .error e) => ({ st with reqCtx := reqCtx }, .error e)
  | (reqCtx, .ok ()) =>
    let reqCtx := { reqCtx with
      modelServerStreaming := (reqCtx.schedulingRequest.map LLMRequest.stream).getD reqCtx.modelServerStreaming }
    let responses := generateRequestBodyResponses reqCtx.request.rawBody
    ({ st with
        reqCtx := { reqCtx with
          reqHeaderResp := some (generateRequestHeaderResponse a.trace reqCtx), reqBodyResp := responses }
        generated := st.generated ++ responses }, .ok ())

/-- The `switch` on a message. -/
def handle (s : StreamingServer) (a : Answers F) (st : Stream) : Message → Stream × Except Stop Unit
  | .requestHeaders headers endOfStream =>
    let r := handleRequestHeaders a.trace a.director.getRandomEndpoint (ensureRequestID a.requestID headers st.reqCtx)
      headers endOfStream
    ({ st with reqCtx := r.1 }, r.2)
  | .requestBody chunk endOfStream =>
    if endOfStream then { st with body := [] }.answerRequest a (st.body ++ chunk)
    else ({ st with body := st.body ++ chunk }, .ok ())
  | .requestTrailers => (st, .ok ())
  | .responseHeaders headers _ =>
    let reqCtx := { headers.foldl readResponseHeader st.reqCtx with requestState := .responseReceived }
    let reqCtx := headers.foldl storeResponseHeader reqCtx
    ({ st with reqCtx := { reqCtx with respHeaderResp := some (generateResponseHeaderResponse reqCtx) } }, .ok ())
  | .responseBody chunk endOfStream =>
    if st.reqCtx.modelServerStreaming then
      andThen ((if endOfStream then st.complete else st).handleResponseBody s a.director chunk endOfStream)
        (·.respondWith chunk endOfStream)
    else if endOfStream then
      { st with body := st.body ++ chunk }.finishResponse s a.director (st.body ++ chunk) false true
    else ({ st with body := st.body ++ chunk }, .ok ())
  | .responseTrailers =>
    andThen (st.finishResponse s a.director st.body st.reqCtx.modelServerStreaming false) fun st =>
      { st with reqCtx := { st.reqCtx with respTrailerResp := some .responseTrailers } }

/-! ## Sending -/

/-- Messages sent one after the other, up to the first failure. -/
def sendAll (canSend : Nat → Bool) (sent : List ProcessingResponse) :
    List ProcessingResponse → List ProcessingResponse × Bool
  | [] => (sent, true)
  | r :: rs => if canSend sent.length then sendAll canSend (sent ++ [r]) rs else (sent, false)

variable (canSend : Nat → Bool)

/-- The stream as a failure leaves it is the error. -/
def send (responses : List ProcessingResponse) (st : Stream) : Except Stream Stream :=
  match sendAll canSend st.sent responses with
  | (sent, true) => .ok { st with sent := sent }
  | (sent, false) => .error { st with sent := sent }

/-- One of the six parts of `updateStateAndSendIfNeeded`: in a state, send what is ready and go on. -/
def sendPart (state : StreamRequestState) (ready : Bool) (responses : List ProcessingResponse)
    (next : RequestContext → RequestContext) (st : Stream) : Except Stream Stream :=
  if st.reqCtx.requestState = state ∧ ready then
    (st.send canSend responses).map fun st => { st with reqCtx := next st.reqCtx }
  else .ok st

variable (st : Stream)

def sendRequestHeader : Except Stream Stream :=
  st.sendPart canSend .requestReceived st.reqCtx.reqHeaderResp.isSome st.reqCtx.reqHeaderResp.toList fun c =>
    { c with requestState := .headerRequestResponseComplete }

def sendRequestBody : Except Stream Stream :=
  st.sendPart canSend .headerRequestResponseComplete (!st.reqCtx.reqBodyResp.isEmpty) st.reqCtx.reqBodyResp fun c =>
    { c with requestState := .bodyRequestResponsesComplete, requestRunning := true, reqBodyResp := [] }

def sendRequestTrailer : Except Stream Stream :=
  st.sendPart canSend .bodyRequestResponsesComplete st.reqCtx.reqTrailerResp.isSome st.reqCtx.reqTrailerResp.toList id

def sendResponseHeader : Except Stream Stream :=
  st.sendPart canSend .responseReceived st.reqCtx.respHeaderResp.isSome st.reqCtx.respHeaderResp.toList fun c =>
    { c with requestState := .headerResponseResponseComplete }

def sendResponseBody : Except Stream Stream :=
  st.sendPart canSend .headerResponseResponseComplete true st.reqCtx.respBodyResp fun c =>
    { c with
      requestState := if c.responseComplete then .bodyResponseResponsesComplete else c.requestState
      respBodyResp := [] }

/-- The state stays as it is, so a later message would have the trailers sent again. -/
def sendResponseTrailer : Except Stream Stream :=
  st.sendPart canSend .bodyResponseResponsesComplete st.reqCtx.respTrailerResp.isSome st.reqCtx.respTrailerResp.toList id

def updateStateAndSendIfNeeded : Except Stream Stream := do
  let st ← st.sendRequestHeader canSend
  let st ← st.sendRequestBody canSend
  let st ← st.sendRequestTrailer canSend
  let st ← st.sendResponseHeader canSend
  let st ← st.sendResponseBody canSend
  st.sendResponseTrailer canSend

/-- The answer to a request that failed, where there is a status for the error. -/
def sendImmediate (e : Error) (st : Stream) : Stream :=
  match buildErrResponse e with
  | none => st
  | some resp => { st with sent := (sendAll canSend st.sent [resp]).1 }

/-- One turn of the loop. -/
def receive (s : StreamingServer) (a : Answers F) (st : Stream) (m : Message) : Stream :=
  match st.handle s a m with
  | (st, .error (.panic p)) => st.finish a.director (.panicked p)
  | (st, .error (.err e)) => (st.sendImmediate a.canSend e).finish a.director (.failed e)
  | (st, .ok ()) =>
    match st.updateStateAndSendIfNeeded a.canSend with
    | .ok st => st
    | .error st => st.finish a.director .sendFailed

end Stream

/-! ## The proxy -/

/-- How far the proxy is with one direction. -/
inductive Side where
  | idle
  | flowing
  | closed
deriving DecidableEq, Repr

/-- Headers or a chunk, the last of a side if so marked. -/
def Side.last (endOfStream : Bool) : Side := if endOfStream then .closed else .flowing

/-- The sides after a message, if it may come now. -/
def advance (request response : Side) : Message → Option (Side × Side)
  | .requestHeaders _ eos => if request = .idle then some (.last eos, response) else none
  | .requestBody _ eos => if request = .flowing then some (.last eos, response) else none
  | .requestTrailers => if request = .flowing then some (.closed, response) else none
  | .responseHeaders _ eos => if response = .idle then some (request, .last eos) else none
  | .responseBody _ eos => if response = .flowing then some (request, .last eos) else none
  | .responseTrailers => if response = .flowing then some (request, .closed) else none

/-- A proxy and the stream it has opened. -/
structure Session where
  request : Side
  response : Side
  /-- The headers of the request as they came. -/
  client : List HeaderValue
  stream : Stream

inductive SessionEvent (F : Type) where
  | message (m : Message) (a : Answers F)
  | disconnect (a : Answers F)

/-- Why there is no such step. -/
inductive Refusal where
  /-- The stream is over. -/
  | over
  /-- A message out of order. -/
  | order
deriving DecidableEq, Repr

namespace Session

def start : Session := ⟨.idle, .idle, [], .new⟩

def clientOf (client : List HeaderValue) : Message → List HeaderValue
  | .requestHeaders headers _ => headers
  | _ => client

def step (s : StreamingServer) (x : Session) : SessionEvent F → Except Refusal Session
  | .message m a =>
    if x.stream.ended.isSome then .error .over
    else
      match advance x.request x.response m with
      | none => .error .order
      | some (request, response) => .ok ⟨request, response, clientOf x.client m, x.stream.receive s a m⟩
  | .disconnect a =>
    if x.stream.ended.isSome then .error .over
    else .ok { x with stream := x.stream.finish a.director .disconnected }

end Session

end InferenceGateway.Handlers
