import InferenceGateway.Handlers.Responses
/-!
# A request and the director

A request comes as headers, chunks of its body, and an end: a chunk marked as the last
or trailers. The director is run where a chunk is marked; trailers are not looked at.
-/

namespace InferenceGateway.Handlers

open Lib RequestControl List

variable {F : Type} {s : StreamingServer} {a : Answers F}

/-! ## What is sent first -/

namespace Stream

variable {st : Stream} {canSend : Nat → Bool}

theorem sent_sendAll (canSend : Nat → Bool) (responses : List ProcessingResponse) :
    ∀ sent : List ProcessingResponse, sent <+: (sendAll canSend sent responses).1 := by
  induction responses with
  | nil => exact fun _ => prefix_rfl
  | cons r rs ih =>
    intro sent
    unfold sendAll
    split
    · exact (prefix_append sent [r]).trans (ih _)
    · exact prefix_rfl

theorem sent_sendPart (canSend : Nat → Bool) (state : StreamRequestState) (ready : Bool)
    (responses : List ProcessingResponse) (next : RequestContext → RequestContext) (st : Stream) :
    st.sent <+: (outcome (st.sendPart canSend state ready responses next)).sent := by
  have hsent := sent_sendAll canSend responses st.sent
  unfold sendPart send
  split
  · split
    · rename_i hall
      rw [hall] at hsent
      exact hsent
    · rename_i hall
      rw [hall] at hsent
      exact hsent
  · exact prefix_rfl

theorem sent_bind {sent : List ProcessingResponse} {x : Except Stream Stream} {f : Stream → Except Stream Stream}
    (hx : sent <+: (outcome x).sent) (hf : ∀ st, st.sent <+: (outcome (f st)).sent) :
    sent <+: (outcome (x >>= f)).sent := by
  cases x with
  | error st => exact hx
  | ok st => exact hx.trans (hf st)

/-- The answer to the headers of a request comes first, if anything can be sent. -/
theorem head_sent {header : ProcessingResponse} (hstate : st.reqCtx.requestState = .requestReceived)
    (hheader : st.reqCtx.reqHeaderResp = some header) (hsent : st.sent = []) :
    (outcome (st.updateStateAndSendIfNeeded canSend)).sent.head? = if canSend 0 then some header else none := by
  cases hcan : canSend 0 with
  | false =>
    have hfirst : st.sendRequestHeader canSend = .error st := by
      simp [sendRequestHeader, sendPart, send, sendAll, hstate, hheader, hsent, hcan, Except.map]
      rw [← hsent]
    rw [updateStateAndSendIfNeeded, hfirst, error_bind]
    simp [outcome, hsent]
  | true =>
    obtain ⟨st', hfirst, hsent'⟩ : ∃ st', st.sendRequestHeader canSend = .ok st' ∧ st'.sent = [header] := by
      simp [sendRequestHeader, sendPart, send, sendAll, hstate, hheader, hsent, hcan, Except.map]
    have hgrows : st'.sent <+: (outcome (st.updateStateAndSendIfNeeded canSend)).sent := by
      rw [updateStateAndSendIfNeeded, hfirst, ok_bind]
      refine sent_bind ?_ fun st => sent_bind ?_ fun st => sent_bind ?_ fun st => sent_bind ?_ fun st => ?_
      all_goals exact sent_sendPart canSend ..
    obtain ⟨rest, hrest⟩ := hgrows
    rw [← hrest, hsent']
    rfl

theorem answerRequest_error {rawBody : List UInt8} {c : RequestContext} {e : Stop}
    (h : a.director.handleRequest { st.reqCtx with
      request := { st.reqCtx.request with rawBody := rawBody }, requestSize := rawBody.length } = (c, .error e)) :
    st.answerRequest a rawBody = ({ st with reqCtx := c }, .error e) := by
  rw [answerRequest, h]

theorem answerRequest_ok {rawBody : List UInt8} {c : RequestContext} (h : a.director.handleRequest { st.reqCtx with
      request := { st.reqCtx.request with rawBody := rawBody }, requestSize := rawBody.length } = (c, .ok ())) :
    ∃ streaming responses, st.answerRequest a rawBody =
      ({ st with
        reqCtx := { c with
          modelServerStreaming := streaming, reqHeaderResp := some (generateRequestHeaderResponse a.trace c)
          reqBodyResp := responses }
        generated := st.generated ++ responses }, .ok ()) := by
  rw [answerRequest, h]
  exact ⟨_, _, rfl⟩

theorem sent_finish (st : Stream) (d : Director F) (ending : Ending) : (st.finish d ending).sent = st.sent := by
  unfold finish
  dsimp only
  split <;> rfl

theorem sent_receive {st₁ : Stream} {m : Message} (hhandle : st.handle s a m = (st₁, .ok ())) :
    (st.receive s a m).sent = (outcome (st₁.updateStateAndSendIfNeeded a.canSend)).sent := by
  rw [receive, hhandle]
  dsimp only
  split
  · rename_i hupdate
    rw [hupdate]
    rfl
  · rename_i hupdate
    rw [hupdate, sent_finish]
    rfl

end Stream

/-! ## A request from its headers to its end -/

/-- How a request that has a body ends. -/
inductive RequestEnd where
  | chunk (last : List UInt8)
  | trailers

def RequestEnd.message : RequestEnd → Message
  | chunk last => .requestBody last true
  | trailers => .requestTrailers

def RequestEnd.bytes : RequestEnd → List UInt8
  | chunk last => last
  | trailers => []

/-- The messages of a request, with what happens while each is handled. -/
def delivery (headers : List HeaderValue) (a₀ : Answers F) (chunks : List (List UInt8 × Answers F)) (e : RequestEnd)
    (a : Answers F) : List (SessionEvent F) :=
  .message (.requestHeaders headers false) a₀ :: chunks.map (fun c => .message (.requestBody c.1 false) c.2) ++
    [.message e.message a]

/-- The context as the headers leave it. -/
def asRead (headers : List HeaderValue) (a₀ : Answers F) : RequestContext :=
  (handleRequestHeaders a₀.trace a₀.director.getRandomEndpoint (ensureRequestID a₀.requestID headers .new) headers false).1

/-- What the director is given. -/
def given (headers : List HeaderValue) (a₀ : Answers F) (rawBody : List UInt8) : RequestContext :=
  { asRead headers a₀ with
    request := { (asRead headers a₀).request with rawBody := rawBody }, requestSize := rawBody.length }

/-- What is sent first is the director's answer: its decision, or its error. -/
def Answered (headers : List HeaderValue) (a₀ a : Answers F) (rawBody : List UInt8) (sent : List ProcessingResponse) : Prop :=
  match a.director.handleRequest (given headers a₀ rawBody) with
  | (c, .ok ()) => sent.head? = some (generateRequestHeaderResponse a.trace c)
  | (_, .error (.err e)) => ∃ r, buildErrResponse e = some r ∧ sent = [r]
  | (_, .error (.panic _)) => False

/-- The director comes to an end: a decision, or an error that has a status. -/
def Settles (d : Director F) (c : RequestContext) : Prop :=
  match d.handleRequest c with
  | (_, .ok ()) => True
  | (_, .error (.err e)) => (buildErrResponse e).isSome
  | (_, .error (.panic _)) => False

theorem not_answered_nil (headers : List HeaderValue) (a₀ a : Answers F) (rawBody : List UInt8) :
    ¬ Answered headers a₀ a rawBody [] := by
  unfold Answered
  split <;> simp

theorem unread_asRead (headers : List HeaderValue) (a₀ : Answers F) : unread (asRead headers a₀) = unread .new :=
  (unread_readHeaders headers _).trans (unread_ensureRequestID a₀.requestID headers .new)

theorem asRead_state (headers : List HeaderValue) (a₀ : Answers F) : (asRead headers a₀).requestState = .requestReceived :=
  (congrArg RequestContext.requestState (unread_asRead headers a₀) :)

theorem asRead_header (headers : List HeaderValue) (a₀ : Answers F) : (asRead headers a₀).reqHeaderResp = none :=
  (congrArg RequestContext.reqHeaderResp (unread_asRead headers a₀) :)

namespace Session

/-- The request has been read up to these bytes of its body. -/
def reading (headers : List HeaderValue) (a₀ : Answers F) (body : List UInt8) : Session :=
  ⟨.flowing, .idle, headers, ⟨asRead headers a₀, body, [], [], [], none⟩⟩

theorem receive_reading {st : Stream} {m : Message} {headers : List HeaderValue} {a₀ : Answers F} {body : List UInt8}
    (hhandle : st.handle s a m = ((reading headers a₀ body).stream, .ok ())) :
    st.receive s a m = (reading headers a₀ body).stream := by
  rw [Stream.receive, hhandle]
  dsimp only
  rw [Stream.update_unanswered a.canSend (asRead_state headers a₀) (asRead_header headers a₀)]

variable (headers : List HeaderValue)
include headers

theorem step_headers (a₀ : Answers F) :
    start.step s (.message (.requestHeaders headers false) a₀) = .ok (reading headers a₀ []) := by
  have hreceive : start.stream.receive s a₀ (.requestHeaders headers false) = (reading headers a₀ []).stream :=
    receive_reading rfl
  exact congrArg (fun st => Except.ok (Session.mk .flowing .idle headers st)) hreceive

theorem step_chunk (a₀ a : Answers F) (body chunk : List UInt8) :
    (reading headers a₀ body).step s (.message (.requestBody chunk false) a) = .ok (reading headers a₀ (body ++ chunk)) := by
  have hreceive : (reading headers a₀ body).stream.receive s a (.requestBody chunk false) =
    (reading headers a₀ (body ++ chunk)).stream := receive_reading rfl
  exact congrArg (fun st => Except.ok (Session.mk .flowing .idle headers st)) hreceive

/-- Nothing is done with the trailers of a request. -/
theorem step_trailers (a₀ a : Answers F) (body : List UInt8) :
    (reading headers a₀ body).step s (.message .requestTrailers a) =
      .ok { reading headers a₀ body with request := .closed } := by
  have hreceive : (reading headers a₀ body).stream.receive s a .requestTrailers = (reading headers a₀ body).stream :=
    receive_reading rfl
  exact congrArg (fun st => Except.ok (Session.mk .closed .idle headers st)) hreceive

theorem foldlM_chunks (a₀ : Answers F) (chunks : List (List UInt8 × Answers F)) :
    ∀ body, (chunks.map fun c => SessionEvent.message (.requestBody c.1 false) c.2).foldlM (step s) (reading headers a₀ body) =
      .ok (reading headers a₀ (body ++ (chunks.map Prod.fst).flatten)) := by
  induction chunks with
  | nil => exact fun body => by simp; rfl
  | cons c chunks ih =>
    intro body
    rw [map_cons, foldlM_cons, step_chunk, ok_bind, ih]
    simp

/-- The last chunk of a request: what is sent is the director's answer on the whole body,
provided that there is one and it can be sent. -/
theorem answered_last_iff (a₀ a : Answers F) (body last : List UInt8) :
    Answered headers a₀ a (body ++ last) ((reading headers a₀ body).stream.receive s a (.requestBody last true)).sent ↔
      a.canSend 0 ∧ Settles a.director (given headers a₀ (body ++ last)) := by
  have hkept := Director.kept_handleRequest (d := a.director) (given headers a₀ (body ++ last))
  rcases hdirector : a.director.handleRequest (given headers a₀ (body ++ last)) with ⟨c, (e | p) | _⟩
  · have hhandle : (reading headers a₀ body).stream.handle s a (.requestBody last true) =
      (⟨c, [], [], [], [], none⟩, .error (.err e)) := Stream.answerRequest_error hdirector
    rw [Stream.receive, hhandle]
    dsimp only
    rw [Stream.sent_finish]
    simp only [Answered, Settles, hdirector, Stream.sendImmediate]
    cases hresp : buildErrResponse e with
    | none => simp
    | some r => cases hcan : a.canSend 0 <;> simp [Stream.sendAll, hcan]
  · simp only [Answered, Settles, hdirector, and_false]
  · obtain ⟨streaming, responses, hhandle⟩ : ∃ streaming responses,
        (reading headers a₀ body).stream.handle s a (.requestBody last true) =
          (⟨{ c with
            modelServerStreaming := streaming, reqHeaderResp := some (generateRequestHeaderResponse a.trace c)
            reqBodyResp := responses }, [], [], [] ++ responses, [], none⟩, .ok ()) := Stream.answerRequest_ok hdirector
    rw [hdirector] at hkept
    have hstate : c.requestState = .requestReceived :=
      (congrArg RequestContext.requestState hkept :).trans (asRead_state headers a₀)
    simp only [Answered, Settles, hdirector, and_true]
    rw [Stream.sent_receive hhandle, Stream.head_sent hstate rfl rfl]
    cases a.canSend 0 <;> simp

omit headers

/-- A request is answered by the director on exactly its body, where it ends with a marked
chunk, the director comes to an end, and the answer can be sent. -/
theorem request_answered_iff (s : StreamingServer) (headers : List HeaderValue) (a₀ : Answers F)
    (chunks : List (List UInt8 × Answers F)) (e : RequestEnd) (a : Answers F) :
    ∃ x, (delivery headers a₀ chunks e a).foldlM (step s) start = .ok x ∧
      (Answered headers a₀ a ((chunks.map Prod.fst).flatten ++ e.bytes) x.stream.sent ↔
        (∃ last, e = .chunk last) ∧ a.canSend 0 ∧
          Settles a.director (given headers a₀ ((chunks.map Prod.fst).flatten ++ e.bytes))) := by
  have hrun : (delivery headers a₀ chunks e a).foldlM (step s) start =
      (reading headers a₀ (chunks.map Prod.fst).flatten).step s (.message e.message a) := by
    rw [delivery, foldlM_append, foldlM_cons, step_headers, ok_bind, foldlM_chunks, ok_bind, nil_append]
    simp
  rw [hrun]
  cases e with
  | chunk last =>
    refine ⟨_, rfl, ?_⟩
    rw [RequestEnd.bytes]
    refine (answered_last_iff headers a₀ a _ last).trans ?_
    simp
  | trailers =>
    refine ⟨_, step_trailers headers a₀ a _, ?_⟩
    simp only [reduceCtorEq, exists_false, false_and, iff_false]
    exact not_answered_nil headers a₀ a _

/-- A request of one chunk and trailers, in a system that answers every request: nothing is sent. -/
theorem request_with_trailers_unanswered :
    ∃ x, (delivery [] smooth [([1], smooth)] .trailers smooth).foldlM (step (openAI numberUsage)) start = .ok x ∧
      Settles smooth.director (given [] smooth [1]) ∧ x.stream.sent = [] ∧ x.stream.ended = none ∧
      ¬ Answered [] smooth smooth [1] x.stream.sent := by
  refine ⟨{ reading [] smooth [1] with request := .closed }, ?_, trivial, rfl, rfl, not_answered_nil [] smooth smooth [1]⟩
  rw [delivery, foldlM_append, foldlM_cons, step_headers, ok_bind, foldlM_chunks, ok_bind]
  exact (foldlM_cons ..).trans (by rw [RequestEnd.message, step_trailers]; rfl)

end Session

end InferenceGateway.Handlers
