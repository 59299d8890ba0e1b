import InferenceGateway.Bbr.Framework
import InferenceGateway.Handlers.Process
/-!
# The body-based router

`Process` of the router's `server.go` with its handlers. In the streaming mode a body is
withheld until its last chunk is there; then come the answer to the headers and the
body in chunks. The two directions have a buffer each.

What the plugins find when they are called (a store, the time) is a value of `W`, and
the cycle state they share is one of `C`.
-/

namespace InferenceGateway.Bbr

open Lib Parsers Handlers

/-! ## Messages -/

inductive BodyMutation where
  | body (bytes : List UInt8)
  | streamed (chunk : StreamedBodyResponse)
deriving DecidableEq, Repr

structure CommonResponse where
  clearRouteCache : Bool
  headerMutation : Option HeaderMutation
  bodyMutation : Option BodyMutation
deriving DecidableEq, Repr

/-- A message to the proxy; `none` is the empty response. -/
inductive ProcessingResponse where
  | requestHeaders (response : Option CommonResponse)
  | requestBody (response : Option CommonResponse)
  | requestTrailers
  | responseHeaders (response : Option CommonResponse)
  | responseBody (response : Option CommonResponse)
  | responseTrailers
  | immediateResponse (status : Nat) (body : String)
deriving DecidableEq, Repr

def buildErrResponse (err : Error) : Option ProcessingResponse :=
  match Handlers.buildErrResponse err with
  | some (.immediateResponse status body) => some (.immediateResponse status body)
  | _ => none

def generateHeadersMutation (headers : HeaderMap) : List (String × String) := headers.entries.map fun e => (e.1, e.2)

/-- A chunk of a body as a response. -/
def streamedBody (chunk : StreamedBodyResponse) : CommonResponse := ⟨false, none, some (.streamed chunk)⟩

def addStreamedBodyResponse (responses : List ProcessingResponse) (requestBodyBytes : List UInt8) :
    List ProcessingResponse :=
  responses ++ (buildChunkedBodyResponses requestBodyBytes true).map fun chunk => .requestBody (some (streamedBody chunk))

def addStreamedResponseBody (responses : List ProcessingResponse) (responseBodyBytes : List UInt8) :
    List ProcessingResponse :=
  responses ++ (buildChunkedBodyResponses responseBodyBytes true).map fun chunk => .responseBody (some (streamedBody chunk))

/-! ## The server -/

variable {C W : Type}

/-- A plugin may change the message and the cycle state, or fail. -/
abbrev Plugin (F C W : Type) := W → C → InferenceMessage F → Except Stop (C × InferenceMessage F)

structure Server (C W : Type) where
  streaming : Bool
  lib : Library
  requestPlugins : List (Plugin lib.Float64 C W)
  responsePlugins : List (Plugin lib.Float64 C W)
  /-- `json.Marshal`. -/
  marshal : Option (List (String × Any lib.Float64)) → Except String (List UInt8)
  /-- The text of the error of `json.Unmarshal`. -/
  unmarshalError : List UInt8 → String
  newCycleState : C

structure RequestContext (F C : Type) where
  cycleState : C
  request : InferenceMessage F
  response : InferenceMessage F

namespace Server

variable (s : Server C W)

/-- `json.Unmarshal` into a map. -/
def unmarshal (old : Option (List (String × Any s.lib.Float64))) (bytes : List UInt8) :
    Option (Option (List (String × Any s.lib.Float64))) :=
  match s.lib.parse bytes with
  | none => none
  | some json => if (decodeMap s.lib old json).2 then none else some (decodeMap s.lib old json).1

/-- Plugins one after the other, up to the first that fails. -/
def runPlugins (plugins : List (Plugin s.lib.Float64 C W)) (w : W) (cycleState : C) (m : InferenceMessage s.lib.Float64) :
    Except Stop (C × InferenceMessage s.lib.Float64) :=
  plugins.foldlM (fun r plugin => plugin w r.1 r.2) (cycleState, m)

def runRequestPlugins (w : W) (cycleState : C) (request : InferenceMessage s.lib.Float64) :
    Except Stop (C × InferenceMessage s.lib.Float64) := s.runPlugins s.requestPlugins w cycleState request

def runResponsePlugins (w : W) (cycleState : C) (response : InferenceMessage s.lib.Float64) :
    Except Stop (C × InferenceMessage s.lib.Float64) := s.runPlugins s.responsePlugins w cycleState response

def readHeaders (headers : List HeaderValue) (m : InferenceMessage s.lib.Float64) : InferenceMessage s.lib.Float64 :=
  { m with headers := headers.foldl (fun t h => t.insert h.key (getHeaderValue h)) m.headers }

/-- What the plugins have changed of the headers. -/
def headerMutation (m : InferenceMessage s.lib.Float64) : HeaderMutation :=
  ⟨generateHeadersMutation m.mutatedHeaders, m.removedHeaders⟩

def handleRequestHeaders (endOfStream : Bool) : List ProcessingResponse :=
  if s.streaming && !endOfStream then [] else [.requestHeaders none]

def contentLengthHeader : String := "Content-Length"

def handleRequestBody (w : W) (reqCtx : RequestContext s.lib.Float64 C) (requestBodyBytes : List UInt8) :
    Except Stop (RequestContext s.lib.Float64 C × List ProcessingResponse) :=
  match s.unmarshal reqCtx.request.body requestBodyBytes with
  | none => .error (.err ⟨.badRequest, "failed to parse request body: " ++ s.unmarshalError requestBodyBytes⟩)
  | some body => do
    let (cycleState, request) ← s.runRequestPlugins w reqCtx.cycleState { reqCtx.request with body := body }
    let mutatedBodyBytes ← if request.bodyMutated then
      match s.marshal request.body with
      | .error msg => .error (.err ⟨.unknown, msg⟩)
      | .ok bytes => .ok (some bytes)
    else .ok none
    let request := match mutatedBodyBytes with
      | some bytes => request.setHeader contentLengthHeader (toString bytes.length)
      | none =>
        if s.streaming then request.setHeader contentLengthHeader (toString requestBodyBytes.length) else request
    let reqCtx := { reqCtx with cycleState := cycleState, request := request }
    let mutation := s.headerMutation request
    .ok (reqCtx,
      if s.streaming then
        addStreamedBodyResponse [.requestHeaders (some ⟨true, some mutation, none⟩)] (mutatedBodyBytes.getD requestBodyBytes)
      else [.requestBody (some ⟨true, some mutation, mutatedBodyBytes.map .body⟩)])

def handleResponseHeaders (endOfStream : Bool) : List ProcessingResponse :=
  if s.streaming && !endOfStream then [] else [.responseHeaders none]

def generateEmptyResponseBodyResponse (responseBodyBytes : List UInt8) : List ProcessingResponse :=
  addStreamedResponseBody [.responseHeaders none] responseBodyBytes

/-- The response to a body that no plugin gets to see. -/
def unprocessed (responseBodyBytes : List UInt8) : List ProcessingResponse :=
  if s.streaming then generateEmptyResponseBodyResponse responseBodyBytes else [.responseBody none]

def handleResponseBody (w : W) (reqCtx : RequestContext s.lib.Float64 C) (responseBodyBytes : List UInt8) :
    Except Stop (RequestContext s.lib.Float64 C × List ProcessingResponse) :=
  if s.responsePlugins.isEmpty then .ok (reqCtx, s.unprocessed responseBodyBytes)
  else
    match s.unmarshal reqCtx.response.body responseBodyBytes with
    | none => .ok (reqCtx, s.unprocessed responseBodyBytes)
    | some body => do
      let (cycleState, response) ← s.runResponsePlugins w reqCtx.cycleState { reqCtx.response with body := body }
      let mutatedBytes ← if response.bodyMutated then
        match s.marshal response.body with
        | .error msg => .error (.err ⟨.unknown, "failed to marshal mutated response body - " ++ msg⟩)
        | .ok bytes => .ok (some bytes)
      else .ok none
      let response := match mutatedBytes with
        | some bytes => response.setHeader contentLengthHeader (toString bytes.length)
        | none => response
      let reqCtx := { reqCtx with cycleState := cycleState, response := response }
      let mutation := s.headerMutation response
      .ok (reqCtx,
        if s.streaming then
          addStreamedResponseBody [.responseHeaders (some ⟨true, some mutation, none⟩)] (mutatedBytes.getD responseBodyBytes)
        else [.responseBody (some ⟨true, some mutation, mutatedBytes.map .body⟩)])

end Server

/-! ## The loop -/

structure Stream (F C : Type) where
  reqCtx : RequestContext F C
  requestBody : List UInt8
  responseBody : List UInt8
  sent : List ProcessingResponse
  ended : Option Ending

namespace Stream

variable {s : Server C W}

def new (s : Server C W) : Stream s.lib.Float64 C := ⟨⟨s.newCycleState, .new, .new⟩, [], [], [], none⟩

/-- The `switch` on a message. -/
def handle (s : Server C W) (w : W) (st : Stream s.lib.Float64 C) :
    Message → Except Stop (Stream s.lib.Float64 C × List ProcessingResponse)
  | .requestHeaders headers endOfStream =>
    .ok ({ st with reqCtx := { st.reqCtx with request := s.readHeaders headers st.reqCtx.request } },
      s.handleRequestHeaders endOfStream)
  | .requestBody body endOfStream =>
    let st := { st with requestBody := st.requestBody ++ body }
    if s.streaming && !endOfStream then .ok (st, [])
    else (s.handleRequestBody w st.reqCtx st.requestBody).map fun r => ({ st with reqCtx := r.1 }, r.2)
  | .requestTrailers => .ok (st, [.requestTrailers])
  | .responseHeaders headers endOfStream =>
    .ok ({ st with reqCtx := { st.reqCtx with response := s.readHeaders headers st.reqCtx.response } },
      s.handleResponseHeaders endOfStream)
  | .responseBody body endOfStream =>
    let st := { st with responseBody := st.responseBody ++ body }
    if s.streaming && !endOfStream then .ok (st, [])
    else (s.handleResponseBody w st.reqCtx st.responseBody).map fun r => ({ st with reqCtx := r.1 }, r.2)
  | .responseTrailers => .ok (st, [.responseTrailers])

/-- Messages sent one after the other; `Send` fails after `room` of them, if that is a number. -/
def sendAll (room : Option Nat) (sent : List ProcessingResponse) : List ProcessingResponse → List ProcessingResponse × Bool
  | [] => (sent, true)
  | r :: rs => if room = some 0 then (sent, false) else sendAll (room.map (· - 1)) (sent ++ [r]) rs

/-- One turn of the loop. -/
def receive (s : Server C W) (w : W) (room : Option Nat) (st : Stream s.lib.Float64 C) (m : Message) :
    Stream s.lib.Float64 C :=
  match st.handle s w m with
  | .error (.panic p) => { st with ended := some (.panicked p) }
  | .error (.err e) =>
    { st with sent := (sendAll room st.sent (buildErrResponse e).toList).1, ended := some (.failed e) }
  | .ok (st, responses) =>
    match sendAll room st.sent responses with
    | (sent, true) => { st with sent := sent }
    | (sent, false) => { st with sent := sent, ended := some .sendFailed }

end Stream

/-! ## The proxy -/

/-- A proxy and the stream it has opened, with the bytes of the bodies it has sent. -/
structure Session (F C : Type) where
  request : Side
  response : Side
  requestReceived : List UInt8
  responseReceived : List UInt8
  stream : Stream F C

inductive SessionEvent (W : Type) where
  | message (m : Message) (w : W) (room : Option Nat)
  | disconnect

namespace Session

def start (s : Server C W) : Session s.lib.Float64 C := ⟨.idle, .idle, [], [], .new s⟩

/-- The bytes of a request's body that come with a message. -/
def requestBytes : Message → List UInt8
  | .requestBody body _ => body
  | _ => []

def responseBytes : Message → List UInt8
  | .responseBody body _ => body
  | _ => []

def step (s : Server C W) (x : Session s.lib.Float64 C) : SessionEvent W → Except Refusal (Session s.lib.Float64 C)
  | .message m w room =>
    if x.stream.ended.isSome then .error .over
    else
      match advance x.request x.response m with
      | none => .error .order
      | some (request, response) =>
        .ok ⟨request, response, x.requestReceived ++ requestBytes m, x.responseReceived ++ responseBytes m,
          x.stream.receive s w room m⟩
  | .disconnect =>
    if x.stream.ended.isSome then .error .over
    else .ok { x with stream := { x.stream with ended := some .disconnected } }

end Session

end InferenceGateway.Bbr
