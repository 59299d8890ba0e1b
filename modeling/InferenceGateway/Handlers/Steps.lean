import InferenceGateway.Handlers.Process
/-!
# What a message does to a stream

One statement for each kind of message: the messages of the request leave the response
side of a stream alone, a part of the response leaves the request side alone, and
sending changes little but what has been sent.
-/

namespace InferenceGateway.Handlers

open Lib RequestControl Option RequestContext

variable {F : Type} {s : StreamingServer} {a : Answers F} {d : Director F}

/-! ## Contexts up to some fields -/

variable (c : RequestContext)

/-- A context without what is read from a request and what the director writes. -/
def unread : RequestContext :=
  { kept c with fairnessID := "", objectiveKey := "", request := ⟨∅, []⟩, modelServerStreaming := false }

/-- A context without what is counted and reported of a response. -/
def quiet : RequestContext :=
  { c with usage := ⟨0, 0, 0, none⟩, responseSize := 0, response := { c.response with dynamicMetadata := none } }

/-- A context without what the headers of a response change. -/
def headless : RequestContext :=
  { c with
    responseStatusCode := none, modelServerStreaming := false, response := { c.response with headers := ∅ },
    requestState := .requestReceived, respHeaderResp := none }

/-- A context without what sending changes. -/
def unsent : RequestContext :=
  { c with requestState := .requestReceived, requestRunning := false, reqBodyResp := [], respBodyResp := [] }

theorem unread_of_kept {c c' : RequestContext} (h : kept c = kept c') : unread c = unread c' :=
  congrArg (fun k : RequestContext => { k with
    fairnessID := "", objectiveKey := "", request := ⟨∅, []⟩, modelServerStreaming := false }) h

/-! ## The request -/

theorem unread_readHeaders (headers : List HeaderValue) : ∀ c : RequestContext,
    unread (headers.foldl readHeader c) = unread c := by
  induction headers with
  | nil => exact fun _ => rfl
  | cons h headers ih =>
    intro c
    refine (ih _).trans ?_
    unfold readHeader
    dsimp only
    split
    · rfl
    · split
      · rfl
      · split <;> rfl

theorem unread_ensureRequestID (id : String) (headers : List HeaderValue) (c : RequestContext) :
    unread (ensureRequestID id headers c) = unread c := by
  unfold ensureRequestID
  split <;> rfl

namespace Stream

variable {st : Stream}

/-- A message of the request. -/
def ofRequest : Message → Bool
  | .requestHeaders .. | .requestBody .. | .requestTrailers => true
  | _ => false

/-- The request is complete with the message. -/
def lastOfRequest : Message → Bool
  | .requestHeaders _ eos | .requestBody _ eos => eos
  | _ => false

/-- What a message of the request does: it is read, or fails, or it is the last one and the
request is answered. -/
inductive Asked (st : Stream) (m : Message) : Stream × Except Stop Unit → Prop where
  | failed (c : RequestContext) (body : List UInt8) (e : Stop) : unread c = unread st.reqCtx →
      Asked st m ({ st with reqCtx := c, body := body }, .error e)
  | read (c : RequestContext) (body : List UInt8) : unread c = unread st.reqCtx →
      Asked st m ({ st with reqCtx := c, body := body }, .ok ())
  | answered (c : RequestContext) (body : List UInt8) (trace : TraceContext) (responses pending : List ProcessingResponse) :
      unread c = unread st.reqCtx → lastOfRequest m →
      (∀ r ∈ responses, r.part = some (.request, .body)) →
      c.requestSize = (responses.map ProcessingResponse.requestBytes).flatten.length →
      (pending = responses ∨ responses = [] ∧ pending = c.reqBodyResp) →
      Asked st m ({ st with
        reqCtx := { c with reqHeaderResp := some (generateRequestHeaderResponse trace c), reqBodyResp := pending }
        body := body
        generated := st.generated ++ responses }, .ok ())

theorem asked_requestHeaders (s : StreamingServer) (a : Answers F) (headers : List HeaderValue) (eos : Bool) :
    Asked st (.requestHeaders headers eos) (st.handle s a (.requestHeaders headers eos)) := by
  have hid := unread_ensureRequestID a.requestID headers st.reqCtx
  unfold handle handleRequestHeaders
  cases eos with
  | false => exact .read _ st.body ((unread_readHeaders headers _).trans hid)
  | true =>
    cases a.director.getRandomEndpoint with
    | none => exact .failed _ st.body _ hid
    | some endpoint =>
      have hanswered : Asked st (.requestHeaders headers true) _ := .answered
        { ensureRequestID a.requestID headers st.reqCtx with
          targetEndpoint := endpoint.address ++ ":" ++ endpoint.port, requestSize := 0 }
        st.body a.trace [] _ hid rfl nofun rfl (.inr ⟨rfl, rfl⟩)
      rw [List.append_nil] at hanswered
      exact hanswered

theorem asked_answerRequest (a : Answers F) (rawBody chunk : List UInt8) :
    Asked st (.requestBody chunk true) ({ st with body := [] }.answerRequest a rawBody) := by
  unfold answerRequest
  generalize hc₀ : { st.reqCtx with
    request := { st.reqCtx.request with rawBody := rawBody }, requestSize := rawBody.length } = c₀
  have hkept : kept (a.director.handleRequest c₀).1 = kept st.reqCtx := by
    rw [Director.kept_handleRequest, ← hc₀]
    rfl
  rcases h : a.director.handleRequest c₀ with ⟨c, e | _⟩
  · rw [h] at hkept
    exact .failed c [] e (unread_of_kept hkept)
  · rw [h] at hkept
    have hsize := (Director.handleRequest_ok h).2
    rw [← generateRequestBodyResponses_bytes c.request.rawBody] at hsize
    exact .answered { c with
      modelServerStreaming := (c.schedulingRequest.map LLMRequest.stream).getD c.modelServerStreaming } [] a.trace _ _
      (unread_of_kept hkept :) rfl (generateRequestBodyResponses_part _) hsize (.inl rfl)

variable {m : Message}

theorem handle_asked (st : Stream) (hm : ofRequest m) : Asked st m (st.handle s a m) := by
  cases m with
  | requestHeaders headers eos => exact asked_requestHeaders s a headers eos
  | requestBody chunk eos =>
    cases eos with
    | false => exact .read st.reqCtx _ rfl
    | true => exact asked_answerRequest a _ chunk
  | requestTrailers => exact .read st.reqCtx st.body rfl
  | _ => cases hm

/-! ## The response -/

theorem handleResponseBody_cases (s : StreamingServer) (d : Director F) (bytes : List UInt8) (eos : Bool) (st : Stream) :
    ∃ c, quiet c = quiet st.reqCtx ∧
      ((∃ p, s.parseResponse bytes st.reqCtx.response.headers eos = .error p ∧
          st.handleResponseBody s d bytes eos = ({ st with reqCtx := c }, .error (.panic p))) ∨
        st.handleResponseBody s d bytes eos =
          ({ st with reqCtx := c, hooks := st.hooks ++ [(.loop, eos)] }, .ok ())) := by
  unfold handleResponseBody
  dsimp only
  split
  · rename_i p h
    refine ⟨_, ?_, .inl ⟨p, h, rfl⟩⟩
    rfl
  · refine ⟨_, ?_, .inr rfl⟩
    rfl
  · refine ⟨_, ?_, .inr rfl⟩
    rfl

/-- The bytes that the parser gets with the end of the response. -/
def finalPart (st : Stream) : Message → Option (List UInt8)
  | .responseBody chunk true => some (if st.reqCtx.modelServerStreaming then chunk else st.body ++ chunk)
  | .responseTrailers => some st.body
  | _ => none

/-- A chunk or the trailers of a response. -/
def ofResponse : Message → Bool
  | .responseBody .. | .responseTrailers => true
  | _ => false

/-- The trailers' own response. -/
def trailerOf : Message → Option ProcessingResponse
  | .responseTrailers => some .responseTrailers
  | _ => c.respTrailerResp

/-- What a part of a response does while the response is not complete: it is kept for
later; or the parser panics; or the hook is called, and there may be responses. -/
inductive Part (s : StreamingServer) (st : Stream) (m : Message) : Stream × Except Stop Unit → Prop where
  | kept (body : List UInt8) : finalPart st m = none → Part s st m ({ st with body := body }, .ok ())
  | panicked (c : RequestContext) (body : List UInt8) (p : Panic) :
      quiet c = quiet { st.reqCtx with responseComplete := (finalPart st m).isSome } →
      (∀ bytes, finalPart st m = some bytes → s.parseResponse bytes st.reqCtx.response.headers true = .error p) →
      Part s st m ({ st with reqCtx := c, body := body }, .error (.panic p))
  | called (c : RequestContext) (body : List UInt8) (responses pending : List ProcessingResponse) :
      quiet c = quiet { st.reqCtx with responseComplete := (finalPart st m).isSome } →
      (∀ r ∈ responses, r.part = some (.response, .body)) →
      (pending = responses ∨ responses = [] ∧ pending = c.respBodyResp) →
      Part s st m ({ st with
        reqCtx := { c with respBodyResp := pending, respTrailerResp := trailerOf c m }
        body := body
        hooks := st.hooks ++ [(.loop, (finalPart st m).isSome)]
        generated := st.generated ++ responses }, .ok ())

/-- The end of a response that is not complete. -/
theorem finishResponse_cases (st : Stream) (s : StreamingServer) (d : Director F) (bytes : List UInt8)
    (modelStreaming setEos : Bool) (h : st.reqCtx.responseComplete = false) :
    ∃ c, quiet c = quiet { st.reqCtx with responseComplete := true } ∧
      ((∃ p, s.parseResponse bytes st.reqCtx.response.headers true = .error p ∧
          st.finishResponse s d bytes modelStreaming setEos = ({ st with reqCtx := c }, .error (.panic p))) ∨
        ∃ responses pending, (∀ r ∈ responses, r.part = some (.response, .body)) ∧
          (pending = responses ∨ responses = [] ∧ pending = c.respBodyResp) ∧
          st.finishResponse s d bytes modelStreaming setEos =
            ({ st with
                reqCtx := { c with respBodyResp := pending }
                hooks := st.hooks ++ [(.loop, true)]
                generated := st.generated ++ responses }, .ok ())) := by
  obtain ⟨c, hc, ⟨p, hp, hpanic⟩ | hcall⟩ := handleResponseBody_cases s d bytes true st.complete
  · refine ⟨c, hc, .inl ⟨p, hp, ?_⟩⟩
    rw [finishResponse, if_neg (by simp [h]), hpanic]
    rfl
  · refine ⟨c, hc, .inr ?_⟩
    rw [finishResponse, if_neg (by simp [h]), hcall]
    cases modelStreaming with
    | true => exact ⟨[], c.respBodyResp, nofun, .inr ⟨rfl, rfl⟩, by rw [List.append_nil]; rfl⟩
    | false => exact ⟨_, _, attachMetadata_part _ _, .inl rfl, rfl⟩

/-- A chunk of a streamed response goes on at once, and the last one completes the response. -/
theorem handle_streamed (chunk : List UInt8) (eos : Bool) (hstream : st.reqCtx.modelServerStreaming = true)
    (h : st.reqCtx.responseComplete = false) : Part s st (.responseBody chunk eos) (st.handle s a (.responseBody chunk eos)) := by
  rw [handle, if_pos hstream]
  cases eos with
  | true =>
    obtain ⟨c, hc, ⟨p, hp, hpanic⟩ | hcall⟩ := handleResponseBody_cases s a.director chunk true st.complete
    · rw [if_pos rfl, hpanic]
      refine .panicked c st.body p hc fun bytes hb => ?_
      rw [finalPart, if_pos hstream] at hb
      cases hb
      exact hp
    · rw [if_pos rfl, hcall]
      exact .called c st.body _ _ hc (attachMetadata_part _ _) (.inl rfl)
  | false =>
    have hsame : { st.reqCtx with responseComplete := false } = st.reqCtx := by rw [← h]
    obtain ⟨c, hc, ⟨p, hp, hpanic⟩ | hcall⟩ := handleResponseBody_cases s a.director chunk false st
    · rw [if_neg Bool.false_ne_true, hpanic]
      exact .panicked c st.body p (by rw [hc, ← hsame]; rfl) nofun
    · rw [if_neg Bool.false_ne_true, hcall]
      exact .called c st.body _ _ (by rw [hc, ← hsame]; rfl) (attachMetadata_part _ _) (.inl rfl)

theorem handle_buffered (chunk : List UInt8) (eos : Bool) (hstream : st.reqCtx.modelServerStreaming = false)
    (h : st.reqCtx.responseComplete = false) : Part s st (.responseBody chunk eos) (st.handle s a (.responseBody chunk eos)) := by
  rw [handle, if_neg (by simp [hstream])]
  cases eos with
  | false => exact .kept _ rfl
  | true =>
    obtain ⟨c, hc, ⟨p, hp, hpanic⟩ | ⟨responses, pending, hresponses, hpending, hcall⟩⟩ :=
      finishResponse_cases { st with body := st.body ++ chunk } s a.director (st.body ++ chunk) false true h
    · rw [if_pos rfl, hpanic]
      refine .panicked c _ p hc fun bytes hb => ?_
      rw [finalPart, if_neg (by simp [hstream])] at hb
      cases hb
      exact hp
    · rw [if_pos rfl, hcall]
      exact .called c _ responses pending hc hresponses hpending

theorem handle_part (st : Stream) (hm : ofResponse m) (h : st.reqCtx.responseComplete = false) :
    Part s st m (st.handle s a m) := by
  cases m with
  | responseBody chunk eos =>
    cases hstream : st.reqCtx.modelServerStreaming with
    | true => exact handle_streamed chunk eos hstream h
    | false => exact handle_buffered chunk eos hstream h
  | responseTrailers =>
    obtain ⟨c, hc, ⟨p, hp, hpanic⟩ | ⟨responses, pending, hresponses, hpending, hcall⟩⟩ :=
      finishResponse_cases st s a.director st.body st.reqCtx.modelServerStreaming false h
    · rw [handle, hpanic]
      refine .panicked c st.body p hc fun bytes hb => ?_
      cases hb
      exact hp
    · rw [handle, hcall]
      exact .called c st.body responses pending hc hresponses hpending
  | _ => cases hm

theorem headless_readResponseHeaders (headers : List HeaderValue) : ∀ c : RequestContext,
    headless (headers.foldl readResponseHeader c) = headless c := by
  induction headers with
  | nil => exact fun _ => rfl
  | cons h headers ih =>
    intro c
    refine (ih _).trans ?_
    unfold readResponseHeader
    split
    · rfl
    · split <;> rfl

theorem headless_storeResponseHeaders (headers : List HeaderValue) : ∀ c : RequestContext,
    headless (headers.foldl storeResponseHeader c) = headless c ∧
      (headers.foldl storeResponseHeader c).requestState = c.requestState := by
  induction headers with
  | nil => exact fun _ => ⟨rfl, rfl⟩
  | cons h headers ih => exact fun c => ⟨(ih _).1, (ih _).2⟩

theorem handle_responseHeaders (st : Stream) (s : StreamingServer) (a : Answers F) (headers : List HeaderValue) (eos : Bool) :
    ∃ c, headless c = headless st.reqCtx ∧ c.requestState = .responseReceived ∧
      (∃ mutation, c.respHeaderResp = some (.responseHeaders mutation)) ∧
      st.handle s a (.responseHeaders headers eos) = ({ st with reqCtx := c }, .ok ()) := by
  obtain ⟨hstore, hstate⟩ := headless_storeResponseHeaders headers
    { headers.foldl readResponseHeader st.reqCtx with requestState := .responseReceived }
  refine ⟨_, ?_, ?_, ?_, rfl⟩
  · exact hstore.trans (headless_readResponseHeaders headers st.reqCtx)
  · exact hstate
  · exact ⟨_, rfl⟩

/-! ## Sending -/

/-- The stream that sending leaves, whether it fails or not. -/
def outcome : Except Stream Stream → Stream
  | .ok st => st
  | .error st => st

/-- A stream without what sending changes. -/
def settled (st : Stream) : Stream := { st with reqCtx := unsent st.reqCtx, sent := [] }

theorem settled_bind {x : Except Stream Stream} {f : Stream → Except Stream Stream}
    (hx : settled (outcome x) = settled st) (hf : ∀ st, settled (outcome (f st)) = settled st) :
    settled (outcome (x >>= f)) = settled st := by
  cases x with
  | error st' => exact hx
  | ok st' => exact (hf st').trans hx

theorem settled_sendPart (canSend : Nat → Bool) (state : StreamRequestState) (ready : Bool)
    (responses : List ProcessingResponse) {next : RequestContext → RequestContext} (hnext : ∀ c, unsent (next c) = unsent c)
    (st : Stream) : settled (outcome (st.sendPart canSend state ready responses next)) = settled st := by
  unfold sendPart send
  split
  · split
    · exact congrArg (fun c => { st with reqCtx := c, sent := [] }) (hnext st.reqCtx)
    · rfl
  · rfl

theorem settled_update (canSend : Nat → Bool) (st : Stream) :
    settled (outcome (st.updateStateAndSendIfNeeded canSend)) = settled st := by
  unfold updateStateAndSendIfNeeded
  refine settled_bind ?_ fun st => settled_bind ?_ fun st => settled_bind ?_ fun st => settled_bind ?_ fun st =>
    settled_bind ?_ fun st => ?_
  all_goals
    refine settled_sendPart canSend _ _ _ ?_ st
    exact fun _ => rfl

/-! ## A turn of the loop -/

theorem finish_complete (st : Stream) (d : Director F) (ending : Ending) :
    (st.finish d ending).reqCtx.responseComplete = st.reqCtx.responseComplete := by
  unfold Stream.finish
  dsimp only
  split <;> rfl

theorem finish_ended (st : Stream) (d : Director F) (ending : Ending) : (st.finish d ending).ended = some ending := by
  unfold Stream.finish
  dsimp only
  split <;> rfl

/-- After a turn of the loop the stream is as the message left it, up to what was sent; or it has ended there. -/
theorem receive_cases (I : Stream → Prop) (hsent : ∀ st st', settled st' = settled st → I st → I st')
    (hI : I (st.handle s a m).1) :
    I (st.receive s a m) ∨ ∃ st₁ ending, I st₁ ∧ st.receive s a m = st₁.finish a.director ending := by
  unfold receive
  rcases hr : st.handle s a m with ⟨st₁, e | _⟩
  · rw [hr] at hI
    cases e with
    | panic p => exact .inr ⟨st₁, _, hI, rfl⟩
    | err e =>
      refine .inr ⟨_, _, hsent st₁ _ ?_ hI, rfl⟩
      unfold sendImmediate
      split <;> rfl
  · rw [hr] at hI
    have hsettled := settled_update a.canSend st₁
    dsimp only
    rcases hu : st₁.updateStateAndSendIfNeeded a.canSend with st₂ | st₂
    · rw [hu] at hsettled
      exact .inr ⟨st₂, _, hsent st₁ st₂ hsettled hI, rfl⟩
    · rw [hu] at hsettled
      exact .inl (hsent st₁ st₂ hsettled hI)

end Stream

/-! ## The proxy's part -/

/-- A message moves its own side only, and that side is not closed yet. -/
theorem advance_cases {request response request' response' : Side} {m : Message}
    (h : advance request response m = some (request', response')) (st : Stream) :
    Stream.ofRequest m ∧ response' = response ∧ request ≠ .closed ∧ (Stream.lastOfRequest m → request' = .closed) ∨
      (∃ headers eos, m = .responseHeaders headers eos) ∧ response = .idle ∧ response' ≠ .idle ∧ request' = request ∨
      Stream.ofResponse m ∧ response = .flowing ∧ response' = .last (st.finalPart m).isSome ∧ request' = request := by
  cases m with
  | requestHeaders headers eos | requestBody chunk eos =>
    simp only [advance, ite_none_right_eq_some, some.injEq, Prod.mk.injEq] at h
    refine .inl ⟨rfl, h.2.2.symm, by rw [h.1]; nofun, fun hlast => ?_⟩
    rw [← h.2.1, show eos = true from hlast]
    rfl
  | requestTrailers =>
    simp only [advance, ite_none_right_eq_some, some.injEq, Prod.mk.injEq] at h
    exact .inl ⟨rfl, h.2.2.symm, by rw [h.1]; nofun, nofun⟩
  | responseHeaders headers eos =>
    simp only [advance, ite_none_right_eq_some, some.injEq, Prod.mk.injEq] at h
    refine .inr (.inl ⟨⟨headers, eos, rfl⟩, h.1, ?_, h.2.1.symm⟩)
    rw [← h.2.2]
    cases eos <;> nofun
  | responseBody chunk eos =>
    simp only [advance, ite_none_right_eq_some, some.injEq, Prod.mk.injEq] at h
    refine .inr (.inr ⟨rfl, h.1, ?_, h.2.1.symm⟩)
    rw [← h.2.2]
    cases eos <;> rfl
  | responseTrailers =>
    simp only [advance, ite_none_right_eq_some, some.injEq, Prod.mk.injEq] at h
    exact .inr (.inr ⟨rfl, h.1, h.2.2.symm, h.2.1.symm⟩)

/-- A step is taken while the stream goes on: a message whose turn it is, or the end. -/
theorem Session.step_cases {x x' : Session} {e : SessionEvent F} (h : x.step s e = .ok x') :
    x.stream.ended = none ∧
      ((∃ a, e = .disconnect a ∧ x' = { x with stream := x.stream.finish a.director .disconnected }) ∨
        ∃ m a request response, e = .message m a ∧ advance x.request x.response m = some (request, response) ∧
          x' = ⟨request, response, clientOf x.client m, x.stream.receive s a m⟩) := by
  cases hended : x.stream.ended with
  | some ending => cases e <;> simp [step, hended] at h
  | none =>
    refine ⟨rfl, ?_⟩
    cases e with
    | disconnect a =>
      simp only [step, hended, isSome_none, Bool.false_eq_true, if_false, Except.ok.injEq] at h
      exact .inl ⟨a, rfl, h.symm⟩
    | message m a =>
      cases hadv : advance x.request x.response m with
      | none => simp [step, hended, hadv] at h
      | some sides =>
        simp only [step, hended, hadv, isSome_none, Bool.false_eq_true, if_false, Except.ok.injEq] at h
        exact .inr ⟨m, a, sides.1, sides.2, rfl, hadv, h.symm⟩

/-! ## A response is complete at its end only -/

namespace Session

variable {x x' : Session}

def Tidy (x : Session) : Prop := x.stream.reqCtx.responseComplete = true → x.response = .closed

theorem Tidy.incomplete (h : x.Tidy) (hopen : x.response ≠ .closed) : x.stream.reqCtx.responseComplete = false := by
  cases hc : x.stream.reqCtx.responseComplete with
  | false => rfl
  | true => exact absurd (h hc) hopen

theorem Tidy.handle {m : Message} {request response : Side} (h : x.Tidy)
    (hadv : advance x.request x.response m = some (request, response)) :
    (x.stream.handle s a m).1.reqCtx.responseComplete = true → response = .closed := by
  rcases advance_cases hadv x.stream with ⟨hm, rfl, _⟩ | ⟨⟨headers, eos, rfl⟩, hidle, _⟩ | ⟨hm, hflowing, rfl, _⟩
  · intro hcomplete
    have hasked := x.stream.handle_asked (s := s) (a := a) hm
    refine h (Eq.trans ?_ hcomplete)
    generalize x.stream.handle s a m = r at hasked
    cases hasked with
    | failed c _ _ hc | read c _ hc | answered c _ _ _ _ hc => exact (congrArg responseComplete hc.symm :)
  · obtain ⟨c, hc, _, _, heq⟩ := x.stream.handle_responseHeaders s a headers eos
    rw [heq]
    intro hcomplete
    have hclosed := h ((congrArg responseComplete hc.symm :).trans hcomplete)
    rw [hidle] at hclosed
    cases hclosed
  · have hincomplete := h.incomplete (by rw [hflowing]; nofun)
    have hpart := x.stream.handle_part (s := s) (a := a) hm hincomplete
    generalize x.stream.handle s a m = r at hpart
    intro hcomplete
    cases hpart with
    | kept _ _ => exact absurd (hincomplete.symm.trans hcomplete) Bool.false_ne_true
    | panicked c _ _ hc _ | called c _ _ _ hc _ _ =>
      rw [show (x.stream.finalPart m).isSome = true from (congrArg responseComplete hc.symm :).trans hcomplete]
      rfl

theorem tidy_step {e : SessionEvent F} (h : x.Tidy) (hstep : x.step s e = .ok x') : x'.Tidy := by
  obtain ⟨_, ⟨a, rfl, rfl⟩ | ⟨m, a, request, response, rfl, hadv, rfl⟩⟩ := step_cases hstep
  · unfold Tidy
    rw [Stream.finish_complete]
    exact h
  · rcases Stream.receive_cases (fun st => st.reqCtx.responseComplete = true → response = .closed)
      (fun st st' hsettled h hcomplete => h ((congrArg (fun st : Stream => st.reqCtx.responseComplete) hsettled.symm :).trans hcomplete))
      (h.handle hadv) with h' | ⟨st₁, ending, h', heq⟩
    · exact h'
    · unfold Tidy
      dsimp only
      rw [heq, Stream.finish_complete]
      exact h'

end Session

end InferenceGateway.Handlers
