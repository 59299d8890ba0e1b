import InferenceGateway.Bbr.Server
import InferenceGateway.Parsers.OpenAI
/-!
# Bodies through the router

In the streaming mode, with plugins that change nothing, the body sent on is the body
received, once the body has ended with a chunk marked as the last. Trailers end a body
too, and what is withheld then stays in the buffer.
-/

namespace InferenceGateway.Bbr

open Lib Parsers Handlers List Option ProcessingResponse

variable {C W : Type} {s : Server C W}

/-! ## What is forwarded -/

namespace ProcessingResponse

/-- The bytes of a body that a message brings to one side. -/
def bodyBytes : Direction → ProcessingResponse → List UInt8
  | .request, .requestBody (some ⟨_, _, some (.streamed chunk)⟩) => chunk.body
  | .response, .responseBody (some ⟨_, _, some (.streamed chunk)⟩) => chunk.body
  | _, _ => []

def isTrailers : Direction → ProcessingResponse → Bool
  | .request, .requestTrailers => true
  | .response, .responseTrailers => true
  | _, _ => false

end ProcessingResponse

/-- The bytes of a body forwarded before its trailers. -/
def forwarded (d : Direction) (sent : List ProcessingResponse) : List UInt8 :=
  (sent.takeWhile fun r => !r.isTrailers d).flatMap fun r => r.bodyBytes d

/-- Nothing of one side's body has been sent, nor its trailers. -/
def Silent (d : Direction) (sent : List ProcessingResponse) : Prop :=
  ∀ r ∈ sent, r.bodyBytes d = [] ∧ r.isTrailers d = false

variable {d : Direction} {sent rs : List ProcessingResponse}

theorem Silent.append (h : Silent d sent) (h' : Silent d rs) : Silent d (sent ++ rs) := by
  intro r hr
  rcases mem_append.1 hr with hr | hr
  · exact h r hr
  · exact h' r hr

theorem forwarded_append (h : Silent d sent) : forwarded d (sent ++ rs) = forwarded d rs := by
  unfold forwarded
  rw [takeWhile_append_of_pos fun r hr => by rw [(h r hr).2]; rfl, flatMap_append,
    flatMap_eq_nil_iff.2 fun r hr => (h r hr).1, nil_append]

theorem Silent.forwarded (h : Silent d sent) : forwarded d sent = [] := by
  have happend : Bbr.forwarded d (sent ++ []) = [] := forwarded_append h
  rwa [append_nil] at happend

/-- What the other side sends does not matter. -/
theorem forwarded_append_silent (sent : List ProcessingResponse) (h : Silent d rs) :
    forwarded d (sent ++ rs) = forwarded d sent := by
  induction sent with
  | nil => exact h.forwarded
  | cons r sent ih =>
    unfold forwarded at ih ⊢
    rw [cons_append]
    cases hr : r.isTrailers d with
    | true => simp [hr]
    | false => simp [hr, ih]

theorem forwarded_chunks (header : ProcessingResponse) (f : StreamedBodyResponse → ProcessingResponse)
    (hf : ∀ chunk, (f chunk).bodyBytes d = chunk.body ∧ (f chunk).isTrailers d = false)
    (hheader : header.bodyBytes d = [] ∧ header.isTrailers d = false) (bytes : List UInt8) :
    forwarded d ([header] ++ (buildChunkedBodyResponses bytes true).map f) = bytes := by
  rw [forwarded_append (by simpa [Silent] using hheader), forwarded, takeWhile_eq_self_iff.2]
  · rw [flatMap_map, flatMap_congr fun chunk _ => (hf chunk).1, flatMap_def]
    exact buildChunkedBodyResponses_flatten bytes true
  · simp [hf]

/-! ## Plugins that change nothing -/

def MutatesNothing (s : Server C W) : Prop :=
  ∀ plugin ∈ s.requestPlugins ++ s.responsePlugins, ∀ w c m c' m', plugin w c m = .ok (c', m') → m' = m

theorem runPlugins_same {plugins : List (Plugin s.lib.Float64 C W)}
    (h : ∀ plugin ∈ plugins, ∀ w c m c' m', plugin w c m = .ok (c', m') → m' = m) (w : W) :
    ∀ {c c' : C} {m m' : InferenceMessage s.lib.Float64}, s.runPlugins plugins w c m = .ok (c', m') → m' = m := by
  induction plugins with
  | nil =>
    intro c c' m m' hrun
    cases hrun
    rfl
  | cons plugin plugins ih =>
    intro c c' m m' hrun
    obtain ⟨⟨c₁, m₁⟩, hfirst, hrest⟩ := bind_eq_ok hrun
    have hsame : m₁ = m := h plugin mem_cons_self w c m c₁ m₁ hfirst
    subst hsame
    exact ih (fun plugin hmem => h plugin (mem_cons_of_mem _ hmem)) hrest

/-! ## The last chunk of a body -/

theorem setHeader_bodyMutated {F : Type} (key value : String) (m : InferenceMessage F) :
    (m.setHeader key value).bodyMutated = m.bodyMutated := by
  unfold InferenceMessage.setHeader
  split <;> rfl

/-- Nothing has been changed so far. -/
structure Unchanged {F : Type} (c : RequestContext F C) : Prop where
  request : c.request.bodyMutated = false
  response : c.response.bodyMutated = false

/-- The body of a request can be decoded, and no plugin fails. -/
def requestAccepted (s : Server C W) (w : W) (c : RequestContext s.lib.Float64 C) (bytes : List UInt8) : Bool :=
  match s.unmarshal c.request.body bytes with
  | none => false
  | some body => (s.runRequestPlugins w c.cycleState { c.request with body := body }).isOk

/-- No plugin fails on the body of a response, if it can be decoded. -/
def responseAccepted (s : Server C W) (w : W) (c : RequestContext s.lib.Float64 C) (bytes : List UInt8) : Bool :=
  match s.unmarshal c.response.body bytes with
  | none => true
  | some body => (s.runResponsePlugins w c.cycleState { c.response with body := body }).isOk

theorem handleRequestBody_forwarded (hstreaming : s.streaming = true) (hs : MutatesNothing s) {w : W}
    {c : RequestContext s.lib.Float64 C} {bytes : List UInt8} (hc : Unchanged c) (haccepted : requestAccepted s w c bytes = true) :
    ∃ c' rs, s.handleRequestBody w c bytes = .ok (c', rs) ∧ Unchanged c' ∧ forwarded .request rs = bytes ∧
      Silent .response rs := by
  unfold requestAccepted at haccepted
  unfold Server.handleRequestBody
  cases hbody : s.unmarshal c.request.body bytes with
  | none =>
    rw [hbody] at haccepted
    cases haccepted
  | some body =>
    rw [hbody] at haccepted
    obtain ⟨⟨cycleState, request⟩, hrun⟩ := exists_of_isOk haccepted
    have hsame : request = { c.request with body := body } :=
      runPlugins_same (fun plugin hmem => hs plugin (mem_append_left _ hmem)) w hrun
    have hmutated : request.bodyMutated = false := by rw [hsame]; exact hc.request
    simp only [hrun, ok_bind, hmutated, hstreaming, Bool.false_eq_true, if_false, if_true, getD_none]
    refine ⟨_, _, rfl, ⟨?_, hc.response⟩, ?_, ?_⟩
    · rw [setHeader_bodyMutated, hmutated]
    · exact forwarded_chunks _ _ (fun _ => ⟨rfl, rfl⟩) ⟨rfl, rfl⟩ bytes
    · simp [Silent, addStreamedBodyResponse, bodyBytes, isTrailers]

theorem unprocessed_forwarded (hstreaming : s.streaming = true) (bytes : List UInt8) :
    forwarded .response (s.unprocessed bytes) = bytes ∧ Silent .request (s.unprocessed bytes) := by
  rw [Server.unprocessed, if_pos hstreaming]
  refine ⟨forwarded_chunks _ _ (fun _ => ⟨rfl, rfl⟩) ⟨rfl, rfl⟩ bytes, ?_⟩
  simp [Silent, Server.generateEmptyResponseBodyResponse, addStreamedResponseBody, bodyBytes,
    isTrailers]

theorem handleResponseBody_forwarded (hstreaming : s.streaming = true) (hs : MutatesNothing s) {w : W}
    {c : RequestContext s.lib.Float64 C} {bytes : List UInt8} (hc : Unchanged c) (haccepted : responseAccepted s w c bytes = true) :
    ∃ c' rs, s.handleResponseBody w c bytes = .ok (c', rs) ∧ Unchanged c' ∧ forwarded .response rs = bytes ∧
      Silent .request rs := by
  unfold responseAccepted at haccepted
  unfold Server.handleResponseBody
  split
  · exact ⟨_, _, rfl, hc, unprocessed_forwarded hstreaming bytes⟩
  · cases hbody : s.unmarshal c.response.body bytes with
    | none => exact ⟨_, _, rfl, hc, unprocessed_forwarded hstreaming bytes⟩
    | some body =>
      rw [hbody] at haccepted
      obtain ⟨⟨cycleState, response⟩, hrun⟩ := exists_of_isOk haccepted
      have hsame : response = { c.response with body := body } :=
        runPlugins_same (fun plugin hmem => hs plugin (mem_append_right _ hmem)) w hrun
      have hmutated : response.bodyMutated = false := by rw [hsame]; exact hc.response
      simp only [hrun, ok_bind, hmutated, Bool.false_eq_true, if_false, getD_none]
      refine ⟨_, _, rfl, ⟨hc.request, hmutated⟩, forwarded_chunks _ _ (fun _ => ⟨rfl, rfl⟩) ⟨rfl, rfl⟩ bytes, ?_⟩
      simp [Silent, addStreamedResponseBody, bodyBytes, isTrailers]

/-! ## Runs -/

/-- What has become of the bytes of one side's body: while it comes it is withheld, and at
its end it has been forwarded. -/
def Conserved (d : Direction) (side : Side) (received buffer : List UInt8) (sent : List ProcessingResponse) : Prop :=
  match side with
  | .idle => Silent d sent ∧ buffer = received ∧ received = []
  | .flowing => Silent d sent ∧ buffer = received
  | .closed => forwarded d sent = received

section Sides

variable {side : Side} {received buffer bytes : List UInt8}

theorem Conserved.silent (h : Conserved d side received buffer sent) (hrs : Silent d rs) :
    Conserved d side received buffer (sent ++ rs) := by
  cases side with
  | idle | flowing => exact ⟨h.1.append hrs, h.2⟩
  | closed => exact (forwarded_append_silent sent hrs).trans h

theorem Conserved.headers (h : Conserved d .idle received buffer sent) (hrs : Silent d rs) (eos : Bool) :
    Conserved d (.last eos) received buffer (sent ++ rs) := by
  cases eos with
  | true => exact (h.1.append hrs).forwarded.trans h.2.2.symm
  | false => exact ⟨h.1.append hrs, h.2.1⟩

variable (h : Conserved d .flowing received buffer sent)
include h

theorem Conserved.chunk :
    Conserved d .flowing (received ++ bytes) (buffer ++ bytes) sent := ⟨h.1, by rw [h.2]⟩

/-- The last chunk: all is forwarded. -/
theorem Conserved.whole (hrs : forwarded d rs = buffer ++ bytes)
    (buffer' : List UInt8) : Conserved d .closed (received ++ bytes) buffer' (sent ++ rs) :=
  (forwarded_append h.1).trans (by rw [hrs, h.2])

/-- The trailers of a body of which nothing is withheld. -/
theorem Conserved.trailers {r : ProcessingResponse} (hbuffer : buffer = [])
    (hr : r.isTrailers d = true) : Conserved d .closed received buffer (sent ++ [r]) := by
  refine (forwarded_append h.1).trans ?_
  rw [← h.2, hbuffer]
  simp [forwarded, hr]

end Sides

namespace Session

variable {x x' : Session s.lib.Float64 C}

def side (x : Session s.lib.Float64 C) : Direction → Side
  | .request => x.request
  | .response => x.response

def received (x : Session s.lib.Float64 C) : Direction → List UInt8
  | .request => x.requestReceived
  | .response => x.responseReceived

/-- The bytes that are withheld, or were. -/
def buffer (x : Session s.lib.Float64 C) : Direction → List UInt8
  | .request => x.stream.requestBody
  | .response => x.stream.responseBody

/-- A message after which nothing should be lost: trailers come when nothing is withheld, a
body that has ended is accepted, and everything can be sent. -/
def Passing (s : Server C W) (x : Session s.lib.Float64 C) : SessionEvent W → Prop
  | .message m w room => room = none ∧
    match m with
    | .requestBody body true => requestAccepted s w x.stream.reqCtx (x.stream.requestBody ++ body) = true
    | .responseBody body true => responseAccepted s w x.stream.reqCtx (x.stream.responseBody ++ body) = true
    | .requestTrailers => x.stream.requestBody = []
    | .responseTrailers => x.stream.responseBody = []
    | _ => True
  | .disconnect => True

/-- What a run keeps. -/
structure Carried (x : Session s.lib.Float64 C) : Prop where
  unchanged : Unchanged x.stream.reqCtx
  conserved : ∀ d, Conserved d (x.side d) (x.received d) (x.buffer d) x.stream.sent

theorem Carried.of {request response : Side} {requestReceived responseReceived : List UInt8} {st : Stream s.lib.Float64 C}
    (hunchanged : Unchanged st.reqCtx) (hrequest : Conserved .request request requestReceived st.requestBody st.sent)
    (hresponse : Conserved .response response responseReceived st.responseBody st.sent) :
    Carried ⟨request, response, requestReceived, responseReceived, st⟩ := by
  refine ⟨hunchanged, fun d => ?_⟩
  cases d with
  | request => exact hrequest
  | response => exact hresponse

theorem sendAll_none (sent : List ProcessingResponse) (rs : List ProcessingResponse) :
    Stream.sendAll none sent rs = (sent ++ rs, true) := by
  induction rs generalizing sent with
  | nil => rw [Stream.sendAll, append_nil]
  | cons r rs ih =>
    rw [Stream.sendAll, if_neg nofun]
    exact (ih _).trans (by simp)

variable {w : W} {m : Message}

theorem receive_ok {st st' : Stream s.lib.Float64 C} (h : st.handle s w m = .ok (st', rs)) :
    st.receive s w none m = { st' with sent := st'.sent ++ rs } := by
  rw [Stream.receive, h]
  dsimp only
  rw [sendAll_none]

theorem step_message {room : Option Nat} (h : x.step s (.message m w room) = .ok x') :
    ∃ request response, advance x.request x.response m = some (request, response) ∧
      x' = ⟨request, response, x.requestReceived ++ requestBytes m, x.responseReceived ++ responseBytes m,
        x.stream.receive s w room m⟩ := by
  rw [step] at h
  split at h
  · cases h
  · split at h
    · cases h
    · rename_i request response hadv
      cases h
      exact ⟨request, response, hadv, rfl⟩

/-- The parts of a response that are not of a body bring nothing to it. -/
theorem silent_headers (d : Direction) (eos : Bool) :
    Silent d (s.handleRequestHeaders eos) ∧ Silent d (s.handleResponseHeaders eos) := by
  unfold Server.handleRequestHeaders Server.handleResponseHeaders
  split <;> cases d <;> simp [Silent, bodyBytes, isTrailers]

theorem Carried.message {request response : Side} (h : x.Carried) (hstreaming : s.streaming = true)
    (hs : MutatesNothing s) (hpassing : x.Passing s (.message m w none))
    (hadv : advance x.request x.response m = some (request, response)) :
    Carried ⟨request, response, x.requestReceived ++ requestBytes m, x.responseReceived ++ responseBytes m,
      x.stream.receive s w none m⟩ := by
  have hrequest : Conserved .request x.request x.requestReceived x.stream.requestBody x.stream.sent := h.conserved .request
  have hresponse : Conserved .response x.response x.responseReceived x.stream.responseBody x.stream.sent :=
    h.conserved .response
  cases m with
  | requestHeaders headers eos =>
    have hhandle : x.stream.handle s w (.requestHeaders headers eos) = .ok (_, s.handleRequestHeaders eos) := rfl
    simp only [advance, ite_none_right_eq_some, some.injEq, Prod.mk.injEq] at hadv
    obtain ⟨hidle, rfl, rfl⟩ := hadv
    rw [hidle] at hrequest
    simp only [receive_ok hhandle, requestBytes, responseBytes, append_nil]
    exact .of ⟨h.unchanged.request, h.unchanged.response⟩ (hrequest.headers (silent_headers _ eos).1 eos)
      (hresponse.silent (silent_headers _ eos).1)
  | requestBody body eos =>
    simp only [advance, ite_none_right_eq_some, some.injEq, Prod.mk.injEq] at hadv
    obtain ⟨hflowing, rfl, rfl⟩ := hadv
    rw [hflowing] at hrequest
    simp only [requestBytes, responseBytes, append_nil]
    cases eos with
    | false =>
      have hhandle : x.stream.handle s w (.requestBody body false) =
          .ok ({ x.stream with requestBody := x.stream.requestBody ++ body }, []) := by
        simp [Stream.handle, hstreaming]
      rw [receive_ok hhandle, append_nil]
      exact .of h.unchanged hrequest.chunk hresponse
    | true =>
      obtain ⟨c, rs, hok, hc, hwhole, hsilent⟩ := handleRequestBody_forwarded hstreaming hs h.unchanged hpassing.2
      have hhandle : x.stream.handle s w (.requestBody body true) =
          .ok ({ x.stream with requestBody := x.stream.requestBody ++ body, reqCtx := c }, rs) := by
        simp [Stream.handle, hok, Except.map]
      rw [receive_ok hhandle]
      exact .of hc (hrequest.whole hwhole _) (hresponse.silent hsilent)
  | requestTrailers =>
    have hhandle : x.stream.handle s w .requestTrailers = .ok (x.stream, [.requestTrailers]) := rfl
    simp only [advance, ite_none_right_eq_some, some.injEq, Prod.mk.injEq] at hadv
    obtain ⟨hflowing, rfl, rfl⟩ := hadv
    rw [hflowing] at hrequest
    simp only [receive_ok hhandle, requestBytes, responseBytes, append_nil]
    exact .of h.unchanged (hrequest.trailers hpassing.2 rfl)
      (hresponse.silent (by simp [Silent, bodyBytes, isTrailers]))
  | responseHeaders headers eos =>
    have hhandle : x.stream.handle s w (.responseHeaders headers eos) = .ok (_, s.handleResponseHeaders eos) := rfl
    simp only [advance, ite_none_right_eq_some, some.injEq, Prod.mk.injEq] at hadv
    obtain ⟨hidle, rfl, rfl⟩ := hadv
    rw [hidle] at hresponse
    simp only [receive_ok hhandle, requestBytes, responseBytes, append_nil]
    exact .of ⟨h.unchanged.request, h.unchanged.response⟩ (hrequest.silent (silent_headers _ eos).2)
      (hresponse.headers (silent_headers _ eos).2 eos)
  | responseBody body eos =>
    simp only [advance, ite_none_right_eq_some, some.injEq, Prod.mk.injEq] at hadv
    obtain ⟨hflowing, rfl, rfl⟩ := hadv
    rw [hflowing] at hresponse
    simp only [requestBytes, responseBytes, append_nil]
    cases eos with
    | false =>
      have hhandle : x.stream.handle s w (.responseBody body false) =
          .ok ({ x.stream with responseBody := x.stream.responseBody ++ body }, []) := by
        simp [Stream.handle, hstreaming]
      rw [receive_ok hhandle, append_nil]
      exact .of h.unchanged hrequest hresponse.chunk
    | true =>
      obtain ⟨c, rs, hok, hc, hwhole, hsilent⟩ := handleResponseBody_forwarded hstreaming hs h.unchanged hpassing.2
      have hhandle : x.stream.handle s w (.responseBody body true) =
          .ok ({ x.stream with responseBody := x.stream.responseBody ++ body, reqCtx := c }, rs) := by
        simp [Stream.handle, hok, Except.map]
      rw [receive_ok hhandle]
      exact .of hc (hrequest.silent hsilent) (hresponse.whole hwhole _)
  | responseTrailers =>
    have hhandle : x.stream.handle s w .responseTrailers = .ok (x.stream, [.responseTrailers]) := rfl
    simp only [advance, ite_none_right_eq_some, some.injEq, Prod.mk.injEq] at hadv
    obtain ⟨hflowing, rfl, rfl⟩ := hadv
    rw [hflowing] at hresponse
    simp only [receive_ok hhandle, requestBytes, responseBytes, append_nil]
    exact .of h.unchanged
      (hrequest.silent (by simp [Silent, bodyBytes, isTrailers]))
      (hresponse.trailers hpassing.2 rfl)

theorem carried_step (hstreaming : s.streaming = true) (hs : MutatesNothing s) {e : SessionEvent W} (h : x.Carried)
    (hpassing : x.Passing s e) (hstep : x.step s e = .ok x') : x'.Carried := by
  cases e with
  | message m w room =>
    obtain ⟨request, response, hadv, rfl⟩ := step_message hstep
    obtain rfl : room = none := hpassing.1
    exact h.message hstreaming hs hpassing hadv
  | disconnect =>
    rw [step] at hstep
    split at hstep
    · cases hstep
    · cases hstep
      exact .of h.unchanged (h.conserved .request) (h.conserved .response)

theorem carried_start (s : Server C W) : (start s).Carried := by
  refine ⟨⟨rfl, rfl⟩, fun d => ?_⟩
  cases d <;> exact ⟨nofun, rfl, rfl⟩

/-- In every run of the streaming mode with plugins that change nothing: a body that has
ended has been forwarded as it was received, provided that each message is passing. -/
theorem bodies_forwarded {x : Session s.lib.Float64 C} (hstreaming : s.streaming = true) (hs : MutatesNothing s)
    (h : Runs (step s) (Passing s) (start s) x) (d : Direction) (hclosed : x.side d = .closed) :
    forwarded d x.stream.sent = x.received d := by
  have hcarried : x.Carried := h.invariant Carried (fun _ _ _ hx hp hstep => carried_step hstreaming hs hx hp hstep)
    (carried_start s)
  have hconserved := hcarried.conserved d
  rwa [hclosed] at hconserved

instance (s : Server C W) (x : Session s.lib.Float64 C) : (e : SessionEvent W) → Decidable (x.Passing s e)
  | .message (.requestBody _ true) _ _ | .message (.responseBody _ true) _ _ | .message .requestTrailers _ _
  | .message .responseTrailers _ _ | .message (.requestHeaders _ _) _ _ | .message (.responseHeaders _ _) _ _
  | .message (.requestBody _ false) _ _ | .message (.responseBody _ false) _ _ =>
    inferInstanceAs (Decidable (_ ∧ _))
  | .disconnect => isTrue trivial

/-- A router with one plugin, which does nothing; it can decode the text of an empty object. -/
def idleRouter : Server Unit Unit where
  streaming := true
  lib := OpenAI.oneText "\x7b\x7d" (.obj [])
  requestPlugins := [fun _ c m => .ok (c, m)]
  responsePlugins := [fun _ c m => .ok (c, m)]
  marshal _ := .error ""
  unmarshalError _ := ""
  newCycleState := ()

theorem idleRouter_mutatesNothing : MutatesNothing idleRouter := by
  intro plugin hplugin w c m c' m' h
  have hidle : plugin = fun _ c m => .ok (c, m) := by
    rcases mem_append.1 hplugin with hplugin | hplugin
    · exact mem_singleton.1 hplugin
    · exact mem_singleton.1 hplugin
  rw [hidle] at h
  cases h
  rfl

/-- A body in two chunks each way, both of which end with a marked chunk. -/
theorem bodies_forwarded_two_chunks :
    ∃ x, Runs (step idleRouter) (Passing idleRouter) (start idleRouter) x ∧
      forwarded .request x.stream.sent = [123, 125] ∧ forwarded .response x.stream.sent = [1, 2] := by
  refine exists_runs ([Message.requestHeaders [] false, .requestBody [123] false, .requestBody [125] true, .responseHeaders [] false,
      .responseBody [1] false, .responseBody [2] true].map (.message · () none))
    (fun x => x.request = .closed ∧ x.response = .closed ∧ x.requestReceived = [123, 125] ∧ x.responseReceived = [1, 2])
    (by decide +kernel) ?_
  rintro x hruns ⟨hrequest, hresponse, hrequestBytes, hresponseBytes⟩
  constructor
  · exact (bodies_forwarded rfl idleRouter_mutatesNothing hruns .request hrequest).trans hrequestBytes
  · exact (bodies_forwarded rfl idleRouter_mutatesNothing hruns .response hresponse).trans hresponseBytes

/-- A body that ends with trailers stays in the buffer. -/
theorem body_lost_with_trailers :
    ∃ x, Runs (step idleRouter) (fun _ _ => True) (start idleRouter) x ∧ x.request = .closed ∧
      x.requestReceived = [123, 125] ∧ x.stream.sent = [.requestTrailers] ∧ forwarded .request x.stream.sent = [] :=
  exists_runs ([Message.requestHeaders [] false, .requestBody [123] false, .requestBody [125] false, .requestTrailers].map
    (.message · () none)) _ (by decide +kernel) fun _ _ h => h

end Session

end InferenceGateway.Bbr
