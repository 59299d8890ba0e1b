import InferenceGateway.Handlers.Completion
/-!
# The messages sent back

For a request that is answered, the messages sent in each direction are one for the
headers, those for the body in the order they were made, and at most one for trailers.
The pending responses and the state that decides what may be sent are shared by both
directions; what keeps them apart is that a response begins after its request has been
forwarded, and that happens after the answer to the request's headers.
-/

namespace InferenceGateway.Handlers

open Lib RequestControl List RequestContext

variable {F : Type} {s : StreamingServer} {a : Answers F}

namespace Stream

variable {st st' : Stream} {canSend : Nat → Bool}

/-! ## Sending without failures -/

theorem sendAll_true (responses : List ProcessingResponse) : ∀ sent : List ProcessingResponse,
    sendAll (fun _ => true) sent responses = (sent ++ responses, true) := by
  induction responses with
  | nil => exact fun sent => by rw [append_nil]; rfl
  | cons r responses ih =>
    intro sent
    rw [sendAll, if_pos rfl, ih, append_assoc]
    rfl

theorem sendAll_ok (responses : List ProcessingResponse) : ∀ sent : List ProcessingResponse,
    (sendAll canSend sent responses).2 = true → sendAll canSend sent responses = (sent ++ responses, true) := by
  induction responses with
  | nil => exact fun sent _ => by rw [append_nil]; rfl
  | cons r responses ih =>
    intro sent h
    rw [sendAll] at h ⊢
    split at h
    · rename_i hcan
      rw [if_pos hcan, ih _ h, append_assoc]
      rfl
    · cases h

theorem send_true (responses : List ProcessingResponse) (st : Stream) :
    st.send (fun _ => true) responses = .ok { st with sent := st.sent ++ responses } := by
  rw [send, sendAll_true]

theorem send_ok {responses : List ProcessingResponse} (h : st.send canSend responses = .ok st') :
    st.send (fun _ => true) responses = .ok st' := by
  rw [send_true, ← h, send]
  split
  · rename_i sent heq
    have hall := sendAll_ok responses st.sent (congrArg Prod.snd heq)
    rw [heq] at hall
    rw [(Prod.mk.inj hall).1]
  · rename_i sent heq
    rw [send, heq] at h
    cases h

theorem sendPart_ok {state : StreamRequestState} {ready : Bool} {responses : List ProcessingResponse}
    {next : RequestContext → RequestContext} (h : st.sendPart canSend state ready responses next = .ok st') :
    st.sendPart (fun _ => true) state ready responses next = .ok st' := by
  unfold sendPart at h ⊢
  split
  · rename_i hcond
    rw [if_pos hcond] at h
    obtain ⟨st₁, hsend, rfl⟩ := map_ok h
    rw [send_ok hsend]
    rfl
  · rename_i hcond
    rwa [if_neg hcond] at h

/-- Where nothing failed, nothing could have. -/
theorem update_ok (h : st.updateStateAndSendIfNeeded canSend = .ok st') :
    st.updateStateAndSendIfNeeded (fun _ => true) = .ok st' := by
  obtain ⟨st₁, h1, h⟩ := bind_eq_ok h
  obtain ⟨st₂, h2, h⟩ := bind_eq_ok h
  obtain ⟨st₃, h3, h⟩ := bind_eq_ok h
  obtain ⟨st₄, h4, h⟩ := bind_eq_ok h
  obtain ⟨st₅, h5, h6⟩ := bind_eq_ok h
  simp only [updateStateAndSendIfNeeded, sendRequestHeader, sendRequestBody, sendRequestTrailer, sendResponseHeader,
    sendResponseBody, sendResponseTrailer] at h1 h2 h3 h4 h5 h6 ⊢
  rw [sendPart_ok h1, ok_bind, sendPart_ok h2, ok_bind, sendPart_ok h3, ok_bind, sendPart_ok h4, ok_bind,
    sendPart_ok h5, ok_bind, sendPart_ok h6]

theorem update_frame (h : st.updateStateAndSendIfNeeded canSend = .ok st') :
    unsent st'.reqCtx = unsent st.reqCtx ∧ st'.generated = st.generated := by
  have hsettled := settled_update canSend st
  rw [h] at hsettled
  exact ⟨(congrArg Stream.reqCtx hsettled :), (congrArg Stream.generated hsettled :)⟩

/-! ## What is sent in which state -/

theorem update_unanswered (canSend : Nat → Bool) (hstate : st.reqCtx.requestState = .requestReceived)
    (hheader : st.reqCtx.reqHeaderResp = none) : st.updateStateAndSendIfNeeded canSend = .ok st := by
  simp only [updateStateAndSendIfNeeded, sendRequestHeader, sendRequestBody, sendRequestTrailer, sendResponseHeader,
    sendResponseBody, sendResponseTrailer, sendPart, hstate, hheader, Option.isSome_none, reduceCtorEq, false_and,
    Bool.false_eq_true, and_false, if_false, ok_bind]

/-- Nothing has been received of the response. -/
structure Fresh (c : RequestContext) : Prop where
  reqTrailerResp : c.reqTrailerResp = none
  respHeaderResp : c.respHeaderResp = none
  respBodyResp : c.respBodyResp = []
  respTrailerResp : c.respTrailerResp = none
  responseComplete : c.responseComplete = false

variable (h : st.updateStateAndSendIfNeeded canSend = .ok st')
include h

/-- The headers of the request, and its body if there is any. -/
theorem update_answered {header : ProcessingResponse}
    (hstate : st.reqCtx.requestState = .requestReceived) (hheader : st.reqCtx.reqHeaderResp = some header)
    (hfresh : Fresh st.reqCtx) :
    st'.sent = st.sent ++ header :: st.reqCtx.reqBodyResp ∧ st'.reqCtx.reqBodyResp = [] ∧ st'.reqCtx.respBodyResp = [] ∧
      (st'.reqCtx.requestState = .headerRequestResponseComplete ∨
        st'.reqCtx.requestState = .bodyRequestResponsesComplete) := by
  have hok := update_ok h
  simp only [updateStateAndSendIfNeeded, sendRequestHeader, sendRequestBody, sendRequestTrailer, sendResponseHeader,
    sendResponseBody, sendResponseTrailer, sendPart, send_true, hstate, hheader, Except.map] at hok
  cases hbody : st.reqCtx.reqBodyResp with
  | nil =>
    simp [hbody] at hok
    subst hok
    exact ⟨rfl, rfl, hfresh.respBodyResp, .inl rfl⟩
  | cons r rs =>
    simp [hbody, hfresh.reqTrailerResp] at hok
    subst hok
    exact ⟨rfl, rfl, hfresh.respBodyResp, .inr rfl⟩

theorem update_responseHeaders {header : ProcessingResponse}
    (hstate : st.reqCtx.requestState = .responseReceived) (hheader : st.reqCtx.respHeaderResp = some header)
    (hbody : st.reqCtx.respBodyResp = []) (hcomplete : st.reqCtx.responseComplete = false) :
    st'.sent = st.sent ++ [header] ∧ st'.reqCtx.reqBodyResp = st.reqCtx.reqBodyResp ∧ st'.reqCtx.respBodyResp = [] ∧
      st'.reqCtx.requestState = .headerResponseResponseComplete := by
  have hok := update_ok h
  simp [updateStateAndSendIfNeeded, sendRequestHeader, sendRequestBody, sendRequestTrailer, sendResponseHeader,
    sendResponseBody, sendResponseTrailer, sendPart, send_true, hstate, hheader, hbody, hcomplete, Except.map] at hok
  subst hok
  exact ⟨rfl, rfl, rfl, rfl⟩

/-- A part of the response, and the trailers with its end. -/
theorem update_part (hstate : st.reqCtx.requestState = .headerResponseResponseComplete) :
    st'.sent = st.sent ++ st.reqCtx.respBodyResp ++
        (if st.reqCtx.responseComplete then st.reqCtx.respTrailerResp.toList else []) ∧
      st'.reqCtx.reqBodyResp = st.reqCtx.reqBodyResp ∧ st'.reqCtx.respBodyResp = [] ∧
      st'.reqCtx.requestState =
        if st.reqCtx.responseComplete then .bodyResponseResponsesComplete else .headerResponseResponseComplete := by
  have hok := update_ok h
  simp only [updateStateAndSendIfNeeded, sendRequestHeader, sendRequestBody, sendRequestTrailer, sendResponseHeader,
    sendResponseBody, sendResponseTrailer, sendPart, send_true, Except.map] at hok
  cases hcomplete : st.reqCtx.responseComplete with
  | false =>
    simp [hstate, hcomplete] at hok
    subst hok
    exact ⟨by simp, rfl, rfl, by simp⟩
  | true =>
    cases htrailer : st.reqCtx.respTrailerResp with
    | none | some r =>
      simp [hstate, hcomplete, htrailer] at hok
      subst hok
      exact ⟨by simp, rfl, rfl, by simp⟩

end Stream

namespace Session

variable {x x' : Session}

/-- A response comes for a request that has been forwarded: its headers have been answered. -/
def Forwarded (x : Session) : SessionEvent F → Prop
  | .message (.responseHeaders _ _) _ => ∃ r ∈ x.stream.sent, r.part = some (.request, .headers)
  | _ => True

variable (d : Direction)

/-- The messages of one direction. -/
def inDirection (responses : List ProcessingResponse) : List ProcessingResponse :=
  responses.filter fun r => r.part.map Prod.fst = some d

/-- One message for the headers, those made for the body in their order, and at most one for trailers. -/
def InOrder (st : Stream) : Prop :=
  (∀ r ∈ inDirection d st.generated, r.part = some (d, .body)) ∧
    ∃ header trailers, header.part = some (d, .headers) ∧ (∀ r ∈ trailers, r.part = some (d, .trailers)) ∧
      trailers.length ≤ 1 ∧ inDirection d st.sent = header :: inDirection d st.generated ++ trailers

/-- Both directions of a session; of a response that has not begun there is nothing. -/
def Ordered (response : Side) (st : Stream) : Prop :=
  InOrder .request st ∧
    if response = .idle then inDirection .response st.sent = [] ∧ inDirection .response st.generated = []
    else InOrder .response st

/-- How far a session is, with the lists behind it: `q` are the responses for the request's
body, `p` those for the response's. -/
inductive Phase (request response : Side) (st : Stream) : Prop where
  /-- The request is not answered yet. -/
  | waiting : response = .idle → Stream.Fresh st.reqCtx → st.reqCtx.requestState = .requestReceived →
      st.reqCtx.reqHeaderResp = none → st.reqCtx.reqBodyResp = [] → st.generated = [] → st.sent = [] →
      Phase request response st
  | answered (header : ProcessingResponse) : request = .closed → response = .idle → Stream.Fresh st.reqCtx →
      (st.reqCtx.requestState = .headerRequestResponseComplete ∨ st.reqCtx.requestState = .bodyRequestResponsesComplete) →
      header.part = some (.request, .headers) → st.reqCtx.reqBodyResp = [] →
      (∀ r ∈ st.generated, r.part = some (.request, .body)) → st.sent = header :: st.generated →
      Phase request response st
  /-- The response's headers are answered. -/
  | responding (header header' : ProcessingResponse) (q p t : List ProcessingResponse) : request = .closed →
      response ≠ .idle → st.reqCtx.respBodyResp = [] → st.reqCtx.reqBodyResp = [] →
      (st.reqCtx.responseComplete = true ∧ response = .closed ∨
        st.reqCtx.requestState = .headerResponseResponseComplete ∧ st.reqCtx.responseComplete = false ∧
          st.reqCtx.respTrailerResp = none ∧ t = []) →
      header.part = some (.request, .headers) → header'.part = some (.response, .headers) →
      (∀ r ∈ q, r.part = some (.request, .body)) → (∀ r ∈ p, r.part = some (.response, .body)) →
      (∀ r ∈ t, r.part = some (.response, .trailers)) → t.length ≤ 1 →
      st.generated = q ++ p → st.sent = header :: q ++ (header' :: p ++ t) → Phase request response st

theorem inDirection_append (l l' : List ProcessingResponse) :
    inDirection d (l ++ l') = inDirection d l ++ inDirection d l' := filter_append ..

variable {k : Kind} {r : ProcessingResponse}

theorem inDirection_cons_self {d : Direction} (h : r.part = some (d, k)) (l : List ProcessingResponse) :
    inDirection d (r :: l) = r :: inDirection d l := by
  simp [inDirection, h]

theorem inDirection_self {d : Direction} {l : List ProcessingResponse} (h : ∀ r ∈ l, r.part = some (d, k)) :
    inDirection d l = l := by
  refine filter_eq_self.2 fun r hr => ?_
  simp [h r hr]

theorem inDirection_other {d' : Direction} {l : List ProcessingResponse}
    (h : ∀ r ∈ l, r.part = some (d', k)) (hd : d' ≠ d) : inDirection d l = [] := by
  refine filter_eq_nil_iff.2 fun r hr => ?_
  simp [h r hr, hd]

theorem inDirection_cons_other {d' : Direction} (h : r.part = some (d', k)) (hd : d' ≠ d)
    (l : List ProcessingResponse) : inDirection d (r :: l) = inDirection d l := by
  simp [inDirection, h, hd]

variable {st : Stream} {request response : Side}

theorem Phase.ordered (h : Phase request response st) (hsome : st.reqCtx.reqHeaderResp.isSome) :
    Ordered response st := by
  cases h with
  | waiting _ _ _ hnone => simp [hnone] at hsome
  | answered header _ hidle _ _ hheader _ hq hsent =>
    have hself : inDirection .request st.generated = st.generated := inDirection_self hq
    have hother : inDirection .response st.generated = [] := inDirection_other .response hq nofun
    refine ⟨⟨by rwa [hself], header, [], hheader, nofun, Nat.zero_le _, ?_⟩, ?_⟩
    · rw [hsent, inDirection_cons_self hheader, append_nil]
    · rw [if_pos hidle, hsent, inDirection_cons_other .response hheader nofun]
      exact ⟨hother, hother⟩
  | responding header header' q p t _ hidle _ _ _ hheader hheader' hq hp ht hlen hgenerated hsent =>
    have hrequest : inDirection .request st.generated = q := by
      rw [hgenerated, inDirection_append, inDirection_self hq, inDirection_other .request hp nofun, append_nil]
    have hresponse : inDirection .response st.generated = p := by
      rw [hgenerated, inDirection_append, inDirection_other .response hq nofun, inDirection_self hp, nil_append]
    refine ⟨⟨by rwa [hrequest], header, [], hheader, nofun, Nat.zero_le _, ?_⟩, ?_⟩
    · rw [hrequest, hsent, cons_append, inDirection_cons_self hheader, inDirection_append, cons_append,
        inDirection_cons_other .request hheader' nofun, inDirection_append, inDirection_self hq, inDirection_other .request hp nofun,
        inDirection_other .request ht nofun]
      rfl
    · rw [if_neg hidle]
      refine ⟨by rwa [hresponse], header', t, hheader', ht, hlen, ?_⟩
      rw [hresponse, hsent, cons_append, inDirection_cons_other .response hheader nofun, inDirection_append, cons_append,
        inDirection_cons_self hheader', inDirection_append, inDirection_other .response hq nofun, inDirection_self hp,
        inDirection_self ht]
      rfl

/-- A stream that goes on is in one of the phases; one that has ended otherwise than by a
failure to send has sent what it should. -/
def Accounted (request response : Side) (st : Stream) : Prop :=
  st.ended = none ∧ Phase request response st ∨
    ∃ ending, st.ended = some ending ∧ (ending ≠ .sendFailed → st.reqCtx.reqHeaderResp.isSome → Ordered response st)

theorem ordered_of_same {st' : Stream} (h : Ordered response st) (hsent : st'.sent = st.sent)
    (hgenerated : st'.generated = st.generated) : Ordered response st' := by
  unfold Ordered InOrder
  rw [hsent, hgenerated]
  exact h

theorem accounted_stop (h : st.reqCtx.reqHeaderResp.isSome → Ordered response st) (d : Director F) (ending : Ending) :
    Accounted request response (st.finish d ending) := by
  refine .inr ⟨ending, st.finish_ended d ending, fun _ => ?_⟩
  unfold Stream.finish
  dsimp only
  split
  · exact fun hsome => ordered_of_same (h hsome) rfl rfl
  · exact fun hsome => ordered_of_same (h hsome) rfl rfl

variable {m : Message} {st₁ : Stream}

/-- A message handled without an error: what it made is sent, or the stream ends. -/
theorem accounted_sent (hhandle : st.handle s a m = (st₁, .ok ())) (hended : st₁.ended = none)
    (h : ∀ st₂, st₁.updateStateAndSendIfNeeded a.canSend = .ok st₂ → Phase request response st₂) :
    Accounted request response (st.receive s a m) := by
  have hsettled := Stream.settled_update a.canSend st₁
  rw [Stream.receive, hhandle]
  dsimp only
  cases hupdate : st₁.updateStateAndSendIfNeeded a.canSend with
  | error st₂ => exact .inr ⟨.sendFailed, Stream.finish_ended .., fun h => absurd rfl h⟩
  | ok st₂ =>
    rw [hupdate] at hsettled
    exact .inl ⟨(congrArg Stream.ended hsettled :).trans hended, h st₂ hupdate⟩

theorem accounted_panicked {p : Panic} (hhandle : st.handle s a m = (st₁, .error (.panic p)))
    (h : st₁.reqCtx.reqHeaderResp.isSome → Ordered response st₁) : Accounted request response (st.receive s a m) := by
  rw [Stream.receive, hhandle]
  exact accounted_stop h _ _

/-- A request that fails has no header response. -/
theorem accounted_failed {e : Stop} (hhandle : st.handle s a m = (st₁, .error e)) (h : st₁.reqCtx.reqHeaderResp = none) :
    Accounted request response (st.receive s a m) := by
  cases e with
  | panic p => exact accounted_panicked hhandle fun hsome => by simp [h] at hsome
  | err e =>
    rw [Stream.receive, hhandle]
    refine accounted_stop (fun hsome => ?_) _ _
    unfold Stream.sendImmediate at hsome
    split at hsome <;> simp [h] at hsome

variable {c : RequestContext}

theorem fresh_of_unread {c' : RequestContext} (h : Stream.Fresh c') (hc : unread c = unread c') : Stream.Fresh c where
  reqTrailerResp := (congrArg reqTrailerResp hc :).trans h.reqTrailerResp
  respHeaderResp := (congrArg respHeaderResp hc :).trans h.respHeaderResp
  respBodyResp := (congrArg respBodyResp hc :).trans h.respBodyResp
  respTrailerResp := (congrArg respTrailerResp hc :).trans h.respTrailerResp
  responseComplete := (congrArg responseComplete hc :).trans h.responseComplete

theorem fresh_of_unsent {c' : RequestContext} (hc : unsent c = unsent c') (h : Stream.Fresh c')
    (hbody : c.respBodyResp = []) : Stream.Fresh c where
  reqTrailerResp := (congrArg reqTrailerResp hc :).trans h.reqTrailerResp
  respHeaderResp := (congrArg respHeaderResp hc :).trans h.respHeaderResp
  respBodyResp := hbody
  respTrailerResp := (congrArg respTrailerResp hc :).trans h.respTrailerResp
  responseComplete := (congrArg responseComplete hc :).trans h.responseComplete

/-- A message of a request that is not answered. -/
theorem accounted_asked (hended : st.ended = none) (hfresh : Stream.Fresh st.reqCtx)
    (hstate : st.reqCtx.requestState = .requestReceived) (hnone : st.reqCtx.reqHeaderResp = none)
    (hbody : st.reqCtx.reqBodyResp = []) (hgenerated : st.generated = []) (hsent : st.sent = [])
    (hm : Stream.ofRequest m) (hlast : Stream.lastOfRequest m → request = .closed) :
    Accounted request .idle (st.receive s a m) := by
  have hasked := st.handle_asked (s := s) (a := a) hm
  generalize hr : st.handle s a m = r at hasked
  cases hasked with
  | failed c body e hc => exact accounted_failed hr ((congrArg reqHeaderResp hc :).trans hnone)
  | read c body hc =>
    have hstate' : c.requestState = .requestReceived := (congrArg requestState hc :).trans hstate
    have hnone' : c.reqHeaderResp = none := (congrArg reqHeaderResp hc :).trans hnone
    refine accounted_sent hr hended fun st₂ hupdate => ?_
    rw [Stream.update_unanswered a.canSend hstate' hnone'] at hupdate
    cases hupdate
    exact .waiting rfl (fresh_of_unread hfresh hc) hstate' hnone' ((congrArg reqBodyResp hc :).trans hbody)
      hgenerated hsent
  | answered c body trace responses pending hc hmlast hresponses _ hpending =>
    have hstate' : c.requestState = .requestReceived := (congrArg requestState hc :).trans hstate
    have hpending' : pending = responses := by
      rcases hpending with h | ⟨h, h'⟩
      · exact h
      · rw [h, h']
        exact (congrArg reqBodyResp hc :).trans hbody
    subst hpending'
    refine accounted_sent hr hended fun st₂ hupdate => ?_
    obtain ⟨hunsent, hsame⟩ := Stream.update_frame hupdate
    obtain ⟨h1, h2, h3, h4, h5⟩ := fresh_of_unread hfresh hc
    obtain ⟨hsent', hbody', hresp', hstate₂⟩ := Stream.update_answered hupdate hstate' rfl ⟨h1, h2, h3, h4, h5⟩
    have hgenerated' : st₂.generated = pending := by
      rw [hsame, hgenerated]
      rfl
    refine .answered (generateRequestHeaderResponse trace c) (hlast hmlast) rfl
      (fresh_of_unsent hunsent ⟨h1, h2, h3, h4, h5⟩ hresp') hstate₂ rfl hbody' ?_ ?_
    · rwa [hgenerated']
    · rw [hsent', hgenerated']
      exact congrArg (· ++ _) hsent

variable {header : ProcessingResponse}

/-- The headers of the response to a request that has been answered. -/
theorem accounted_responseHeaders {headers : List HeaderValue} {eos : Bool} (hended : st.ended = none)
    (hresponse : response ≠ .idle) (hfresh : Stream.Fresh st.reqCtx) (hheader : header.part = some (.request, .headers))
    (hbody : st.reqCtx.reqBodyResp = []) (hq : ∀ r ∈ st.generated, r.part = some (.request, .body))
    (hsent : st.sent = header :: st.generated) :
    Accounted .closed response (st.receive s a (.responseHeaders headers eos)) := by
  obtain ⟨c, hc, hstate, ⟨mutation, hmutation⟩, hr⟩ := st.handle_responseHeaders s a headers eos
  refine accounted_sent hr hended fun st₂ hupdate => ?_
  have hcomplete : c.responseComplete = false := (congrArg responseComplete hc :).trans hfresh.responseComplete
  obtain ⟨hunsent, hgenerated⟩ := Stream.update_frame hupdate
  obtain ⟨hsent', hbody', hresp', hstate₂⟩ := Stream.update_responseHeaders hupdate hstate hmutation
    ((congrArg respBodyResp hc :).trans hfresh.respBodyResp) hcomplete
  refine .responding header (.responseHeaders mutation) st.generated [] [] rfl hresponse hresp' ?_ (.inr ⟨hstate₂, ?_, ?_, rfl⟩)
    hheader rfl hq nofun nofun (Nat.zero_le _) ?_ ?_
  · exact hbody'.trans ((congrArg reqBodyResp hc :).trans hbody)
  · exact (congrArg responseComplete hunsent :).trans hcomplete
  · exact (congrArg respTrailerResp hunsent :).trans
      ((congrArg respTrailerResp hc :).trans hfresh.respTrailerResp)
  · rw [hgenerated, append_nil]
  · rw [hsent']
    exact congrArg (· ++ _) hsent

/-- The responses to a part of a response are sent, and the trailers with its end. -/
theorem responding_update {header' : ProcessingResponse} {q p responses : List ProcessingResponse} {st' : Stream}
    {canSend : Nat → Bool} (h : st.updateStateAndSendIfNeeded canSend = .ok st') (hresponse : response ≠ .idle)
    (hlast : st.reqCtx.responseComplete → response = .closed)
    (htrailer : ∀ r ∈ st.reqCtx.respTrailerResp, st.reqCtx.responseComplete ∧ r.part = some (.response, .trailers))
    (hbody : st.reqCtx.reqBodyResp = []) (hstate : st.reqCtx.requestState = .headerResponseResponseComplete)
    (hheader : header.part = some (.request, .headers)) (hheader' : header'.part = some (.response, .headers))
    (hq : ∀ r ∈ q, r.part = some (.request, .body)) (hp : ∀ r ∈ p, r.part = some (.response, .body))
    (hresponses : ∀ r ∈ responses, r.part = some (.response, .body)) (hresp : st.reqCtx.respBodyResp = responses)
    (hgenerated : st.generated = q ++ p ++ responses) (hsent : st.sent = header :: q ++ (header' :: p)) :
    Phase .closed response st' := by
  obtain ⟨hunsent, hsame⟩ := Stream.update_frame h
  obtain ⟨hsent', hbody', hresp', hstate'⟩ := Stream.update_part h hstate
  have hcomplete : st'.reqCtx.responseComplete = st.reqCtx.responseComplete :=
    (congrArg responseComplete hunsent :)
  have htrailer' : st'.reqCtx.respTrailerResp = st.reqCtx.respTrailerResp :=
    (congrArg respTrailerResp hunsent :)
  have hp' : ∀ r ∈ p ++ responses, r.part = some (.response, .body) := by
    intro r hr
    rcases mem_append.1 hr with hr | hr
    · exact hp r hr
    · exact hresponses r hr
  refine .responding header header' q (p ++ responses) (if st.reqCtx.responseComplete then st.reqCtx.respTrailerResp.toList else [])
    rfl hresponse hresp' (hbody'.trans hbody) ?_ hheader hheader' hq hp' (fun r hr => ?_) ?_ ?_ ?_
  · cases hdone : st.reqCtx.responseComplete with
    | true => exact .inl ⟨hcomplete.trans hdone, hlast hdone⟩
    | false =>
      rw [hdone, if_neg Bool.false_ne_true] at hstate'
      rw [hdone] at htrailer
      refine .inr ⟨hstate', hcomplete.trans hdone, htrailer'.trans (Option.eq_none_iff_forall_not_mem.2 fun r hr => ?_), rfl⟩
      exact Bool.false_ne_true (htrailer r hr).1
  · split at hr
    · exact (htrailer r (Option.mem_toList.1 hr)).2
    · cases hr
  · split
    · cases st.reqCtx.respTrailerResp <;> simp
    · exact Nat.zero_le _
  · rw [hsame, hgenerated, append_assoc]
  · rw [hsent', hsent, hresp]
    simp

theorem finalPart_of_trailers (hr : r ∈ Stream.trailerOf c m) (hnone : c.respTrailerResp = none) :
    (Stream.finalPart st m).isSome ∧ r.part = some (.response, .trailers) := by
  unfold Stream.trailerOf at hr
  split at hr
  · cases hr
    exact ⟨rfl, rfl⟩
  · simp [hnone] at hr

/-- A part of a response whose headers have been answered. -/
theorem accounted_part {header' : ProcessingResponse} {q p : List ProcessingResponse} (hm : Stream.ofResponse m)
    (hended : st.ended = none) (hresponse : response ≠ .idle)
    (hlast : (Stream.finalPart st m).isSome → response = .closed) (hresp : st.reqCtx.respBodyResp = [])
    (hbody : st.reqCtx.reqBodyResp = []) (hstate : st.reqCtx.requestState = .headerResponseResponseComplete)
    (hcomplete : st.reqCtx.responseComplete = false) (htrailer : st.reqCtx.respTrailerResp = none)
    (hheader : header.part = some (.request, .headers)) (hheader' : header'.part = some (.response, .headers))
    (hq : ∀ r ∈ q, r.part = some (.request, .body)) (hp : ∀ r ∈ p, r.part = some (.response, .body))
    (hgenerated : st.generated = q ++ p) (hsent : st.sent = header :: q ++ (header' :: p)) :
    Accounted .closed response (st.receive s a m) := by
  have hpart := st.handle_part (s := s) (a := a) hm hcomplete
  generalize hr : st.handle s a m = r at hpart
  cases hpart with
  | kept body _ =>
    refine accounted_sent hr hended fun st₂ hupdate => ?_
    refine responding_update hupdate hresponse ?_ ?_ hbody hstate hheader hheader' hq hp ?_ hresp ?_ hsent
    · simp [hcomplete]
    · simp [htrailer]
    · nofun
    · rw [hgenerated, append_nil]
  | panicked c body e hc _ =>
    refine accounted_panicked hr fun hsome => ?_
    have hphase : Phase .closed response st := .responding header header' q p [] rfl hresponse hresp hbody
      (.inr ⟨hstate, hcomplete, htrailer, rfl⟩) hheader hheader' hq hp nofun (Nat.zero_le _) hgenerated
      (by rw [hsent, append_nil])
    have hsame : c.reqHeaderResp = st.reqCtx.reqHeaderResp := (congrArg reqHeaderResp hc :)
    refine ordered_of_same (hphase.ordered ?_) rfl rfl
    rwa [hsame] at hsome
  | called c body responses pending hc hresponses hpending =>
    have hdone : c.responseComplete = (Stream.finalPart st m).isSome := (congrArg responseComplete hc :)
    have hresp' : c.respBodyResp = [] := (congrArg respBodyResp hc :).trans hresp
    have hnone : c.respTrailerResp = none := (congrArg respTrailerResp hc :).trans htrailer
    have hpending' : pending = responses := by
      rcases hpending with h | ⟨h, h'⟩
      · exact h
      · rw [h, h', hresp']
    refine accounted_sent hr hended fun st₂ hupdate => ?_
    refine responding_update hupdate hresponse ?_ ?_ ?_ ?_ hheader hheader' hq hp hresponses hpending' ?_ hsent
    · exact fun h => hlast (hdone.symm.trans h)
    · intro r hr
      obtain ⟨hfinal, hr⟩ := finalPart_of_trailers hr hnone
      exact ⟨hdone.trans hfinal, hr⟩
    · exact (congrArg reqBodyResp hc :).trans hbody
    · exact (congrArg requestState hc :).trans hstate
    · rw [hgenerated]

/-- A message to a stream that goes on. -/
theorem Phase.receive (hphase : Phase x.request x.response x.stream) (hended : x.stream.ended = none)
    (hforwarded : x.Forwarded (.message m a)) (hadv : advance x.request x.response m = some (request, response)) :
    Accounted request response (x.stream.receive s a m) := by
  have hsides := advance_cases hadv x.stream
  cases hphase with
  | waiting hidle hfresh hstate hnone hbody hgenerated hsent =>
    rcases hsides with ⟨hm, rfl, _, hlast⟩ | ⟨⟨headers, eos, rfl⟩, _⟩ | ⟨_, hflowing, _⟩
    · rw [hidle]
      exact accounted_asked hended hfresh hstate hnone hbody hgenerated hsent hm hlast
    · exact absurd hforwarded (by simp [Forwarded, hsent])
    · rw [hidle] at hflowing
      cases hflowing
  | answered header hclosed hidle hfresh hstate hheader hbody hq hsent =>
    rcases hsides with ⟨_, _, hopen, _⟩ | ⟨⟨headers, eos, rfl⟩, _, hresponse, rfl⟩ | ⟨_, hflowing, _⟩
    · exact absurd hclosed hopen
    · rw [hclosed]
      exact accounted_responseHeaders hended hresponse hfresh hheader hbody hq hsent
    · rw [hidle] at hflowing
      cases hflowing
  | responding header header' q p t hclosed hidle hresp hbody hdone hheader hheader' hq hp ht hlen hgenerated hsent =>
    rcases hsides with ⟨_, _, hopen, _⟩ | ⟨_, hidle', _⟩ | ⟨hm, hflowing, rfl, rfl⟩
    · exact absurd hclosed hopen
    · exact absurd hidle' hidle
    · rcases hdone with ⟨_, hdone⟩ | ⟨hstate, hcomplete, htrailer, rfl⟩
      · rw [hflowing] at hdone
        cases hdone
      · rw [hclosed]
        rw [append_nil] at hsent
        refine accounted_part hm hended ?_ ?_ hresp hbody hstate hcomplete htrailer hheader hheader' hq hp hgenerated hsent
        · cases (x.stream.finalPart m).isSome <;> nofun
        · intro hfinal
          rw [hfinal]
          rfl

theorem accounted_step {e : SessionEvent F} (h : Accounted x.request x.response x.stream) (hforwarded : x.Forwarded e)
    (hstep : x.step s e = .ok x') : Accounted x'.request x'.response x'.stream := by
  obtain ⟨hended, hcases⟩ := step_cases hstep
  have hphase : Phase x.request x.response x.stream := by
    rcases h with ⟨_, hphase⟩ | ⟨ending, hending, _⟩
    · exact hphase
    · rw [hended] at hending
      cases hending
  rcases hcases with ⟨a, rfl, rfl⟩ | ⟨m, a, request, response, rfl, hadv, rfl⟩
  · exact accounted_stop hphase.ordered _ _
  · exact hphase.receive hended hforwarded hadv

theorem accounted_start : Accounted start.request start.response start.stream :=
  .inl ⟨rfl, .waiting rfl ⟨rfl, rfl, rfl, rfl, rfl⟩ rfl rfl rfl rfl rfl⟩

/-- At every moment of a session whose request has been answered, what has been sent is, in
each direction, a header response, every body response in the order in which they were
made, and at most one trailer response; a response that has not begun has none. -/
theorem responses_in_order {x : Session} (h : Runs (step (F := F) s) Forwarded start x)
    (hanswered : x.stream.reqCtx.reqHeaderResp.isSome) (hsend : x.stream.ended ≠ some .sendFailed) :
    Ordered x.response x.stream := by
  have haccounted : Accounted x.request x.response x.stream := h.invariant (fun x => Accounted x.request x.response x.stream)
    (fun _ _ _ hx hforwarded hstep => accounted_step hx hforwarded hstep) accounted_start
  rcases haccounted with ⟨_, hphase⟩ | ⟨ending, hended, hordered⟩
  · exact hphase.ordered hanswered
  · refine hordered ?_ hanswered
    rintro rfl
    exact hsend hended

instance (x : Session) : (e : SessionEvent F) → Decidable (x.Forwarded e)
  | .message (.responseHeaders _ _) _ => inferInstanceAs (Decidable (∃ r ∈ x.stream.sent, r.part = some (.request, .headers)))
  | .message (.requestHeaders _ _) _ | .message (.requestBody _ _) _ | .message .requestTrailers _
  | .message (.responseBody _ _) _ | .message .responseTrailers _ | .disconnect _ => isTrue trivial

/-- A stream of two chunks and trailers. -/
theorem responses_in_order_stream :
    ∃ x, Runs (step (F := Unit) (openAI numberUsage)) Forwarded start x ∧ x.response = .closed ∧
      x.stream.sent.filterMap ProcessingResponse.part =
        [(.request, .headers), (.request, .body), (.response, .headers), (.response, .body), (.response, .body),
          (.response, .trailers)] ∧ Ordered x.response x.stream := by
  refine exists_runs (exchange [.responseHeaders [⟨"content-type", "", "text/event-stream"⟩] false, .responseBody [100] false,
      .responseBody [100] false, .responseTrailers])
    (fun x => x.stream.ended = none ∧ x.stream.reqCtx.reqHeaderResp.isSome ∧ x.response = .closed ∧
      x.stream.sent.filterMap ProcessingResponse.part =
        [(.request, .headers), (.request, .body), (.response, .headers), (.response, .body), (.response, .body),
          (.response, .trailers)]) (by decide +kernel) ?_
  rintro x hruns ⟨hended, hanswered, hclosed, hparts⟩
  exact ⟨hclosed, hparts, responses_in_order hruns hanswered (by rw [hended]; nofun)⟩

end Session

end InferenceGateway.Handlers
