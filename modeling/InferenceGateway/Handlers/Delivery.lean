import InferenceGateway.Handlers.Completion
/-!
# What reaches the backend

The header mutation that a stream answers a request with, applied to the headers the
request came with. It never removes a header, so the control headers of a client are
delivered with the rest.
-/

namespace InferenceGateway.Handlers

open Lib RequestControl List RequestContext

variable {F : Type} {s : StreamingServer} {a : Answers F}

namespace Stream

variable {st st' : Stream} {m : Message} {r : Stream × Except Stop Unit}

/-- The body that goes on to the backend. -/
def forwarded (st : Stream) : List UInt8 := (st.generated.map ProcessingResponse.requestBytes).flatten

/-- Nothing is forwarded before the answer, and the answer has the endpoint and the size of the body. -/
structure Routed (request : Side) (st : Stream) : Prop where
  silent : st.reqCtx.reqHeaderResp = none → st.forwarded = []
  answer : ∀ resp, st.reqCtx.reqHeaderResp = some resp → request = .closed ∧
    ∃ trace c metadata, resp = .requestHeaders ⟨generateHeaders trace c, []⟩ metadata ∧
      c.targetEndpoint = st.reqCtx.targetEndpoint ∧ c.requestSize = st.forwarded.length

variable {request : Side}

theorem Routed.of_same (h : st.Routed request) (hresp : st'.reqCtx.reqHeaderResp = st.reqCtx.reqHeaderResp)
    (hendpoint : st'.reqCtx.targetEndpoint = st.reqCtx.targetEndpoint) (hforwarded : st'.forwarded = st.forwarded) :
    st'.Routed request := by
  constructor
  · rw [hresp, hforwarded]
    exact h.silent
  · rw [hresp, hendpoint, hforwarded]
    exact h.answer

theorem Routed.of_settled (h : st'.settled = st.settled) (hr : st.Routed request) : st'.Routed request :=
  hr.of_same (congrArg (fun st : Stream => st.reqCtx.reqHeaderResp) h :)
    (congrArg (fun st : Stream => st.reqCtx.targetEndpoint) h :) (congrArg forwarded h :)

theorem Routed.finish (hr : st.Routed request) (d : Director F) (ending : Ending) :
    (st.finish d ending).Routed request := by
  unfold Stream.finish
  dsimp only
  split
  · exact hr.of_same rfl rfl rfl
  · exact hr.of_same rfl rfl rfl

/-- The body responses of a response go the other way. -/
theorem forwarded_append {responses : List ProcessingResponse} (h : ∀ r ∈ responses, r.part = some (.response, .body)) :
    ((st.generated ++ responses).map ProcessingResponse.requestBytes).flatten = st.forwarded := by
  have hnil : (responses.map ProcessingResponse.requestBytes).flatten = [] := by
    rw [flatten_eq_nil_iff]
    intro bytes hbytes
    obtain ⟨resp, hresp, rfl⟩ := List.mem_map.1 hbytes
    cases resp with
    | requestBody chunk => cases h _ hresp
    | _ => rfl
  rw [map_append, flatten_append, hnil, append_nil]
  rfl

theorem Routed.asked {request' : Side} (hr : st.Routed request) (hopen : request ≠ .closed)
    (hlast : lastOfRequest m → request' = .closed) (h : st.Asked m r) : r.1.Routed request' := by
  have hnone : st.reqCtx.reqHeaderResp = none := by
    cases hresp : st.reqCtx.reqHeaderResp with
    | none => rfl
    | some resp => exact absurd (hr.answer resp hresp).1 hopen
  cases h with
  | failed c body e hc | read c body hc =>
    have hc' : c.reqHeaderResp = none := (congrArg reqHeaderResp hc :).trans hnone
    exact ⟨fun _ => hr.silent hnone, fun resp hresp => by rw [hc'] at hresp; cases hresp⟩
  | answered c body trace responses pending hc hm hbody hsize hpending =>
    refine ⟨nofun, fun resp hresp => ⟨hlast hm, trace, c, _, (Option.some.inj hresp).symm, rfl, ?_⟩⟩
    have hforwarded := hr.silent hnone
    unfold forwarded at hforwarded ⊢
    rw [map_append, flatten_append, hforwarded, nil_append]
    exact hsize

theorem Routed.part (hr : st.Routed request) (h : st.Part s m r) : r.1.Routed request := by
  cases h with
  | kept body hfinal => exact hr.of_same rfl rfl rfl
  | panicked c body p hc hp =>
    exact hr.of_same (congrArg reqHeaderResp hc :) (congrArg targetEndpoint hc :) rfl
  | called c body responses pending hc hbody hpending =>
    exact hr.of_same (congrArg reqHeaderResp hc :) (congrArg targetEndpoint hc :)
      (forwarded_append hbody)

end Stream

namespace Session

variable {x x' : Session}

theorem routed_step {e : SessionEvent F} (htidy : x.Tidy) (h : x.stream.Routed x.request) (hstep : x.step s e = .ok x') :
    x'.stream.Routed x'.request := by
  obtain ⟨_, ⟨a, rfl, rfl⟩ | ⟨m, a, request, response, rfl, hadv, rfl⟩⟩ := step_cases hstep
  · exact h.finish _ _
  · have hhandle : (x.stream.handle s a m).1.Routed request := by
      rcases advance_cases hadv x.stream with ⟨hm, _, hopen, hlast⟩ | ⟨⟨headers, eos, rfl⟩, _, _, rfl⟩ | ⟨hm, hflowing, _, rfl⟩
      · exact h.asked hopen hlast (x.stream.handle_asked hm)
      · obtain ⟨c, hc, _, _, heq⟩ := x.stream.handle_responseHeaders s a headers eos
        rw [heq]
        exact h.of_same (congrArg reqHeaderResp hc :) (congrArg targetEndpoint hc :) rfl
      · exact h.part (x.stream.handle_part hm (htidy.incomplete (by rw [hflowing]; nofun)))
    rcases Stream.receive_cases (Stream.Routed request) (fun _ _ => Stream.Routed.of_settled) hhandle with
      hr | ⟨st₁, ending, hr, heq⟩
    · exact hr
    · dsimp only
      rw [heq]
      exact hr.finish _ _

theorem routed_of_runs (h : Runs (step (F := F) s) (fun _ _ => True) start x) : x.stream.Routed x.request :=
  (h.invariant (fun x => x.Tidy ∧ x.stream.Routed x.request)
    (fun _ _ _ hx _ hstep => ⟨tidy_step hx.1 hstep, routed_step hx.1 hx.2 hstep⟩) ⟨nofun, fun _ => rfl, nofun⟩).2

/-- In every run, for all headers and bodies: the headers that an answered request goes on
with are right exactly where the client sent no control header. -/
theorem headers_delivered_iff {x : Session} (h : Runs (step (F := F) s) (fun _ _ => True) start x)
    {mutation : HeaderMutation} {metadata : Struct}
    (hresp : x.stream.reqCtx.reqHeaderResp = some (.requestHeaders mutation metadata)) :
    Delivered (mutation.apply (fieldsOf x.client)) x.stream.reqCtx.targetEndpoint x.stream.forwarded ↔
      Uncontrolled x.client := by
  obtain ⟨_, trace, c, metadata', heq, hendpoint, hsize⟩ := (routed_of_runs h).answer _ hresp
  cases heq
  rw [← hendpoint]
  exact delivered_iff hsize x.client

/-- A request with these headers and a body of two chunks is answered. -/
theorem exists_answered (client : List HeaderValue)
    (h : (runOps (step (openAI numberUsage)) (fun _ _ => True) [.message (.requestHeaders client false) smooth,
      .message (.requestBody [1] false) smooth, .message (.requestBody [2] true) smooth] start).any
        (fun x => x.client = client && x.stream.reqCtx.reqHeaderResp.isSome) = true) :
    ∃ x trace c metadata, Runs (step (F := Unit) (openAI numberUsage)) (fun _ _ => True) start x ∧ x.client = client ∧
      x.stream.reqCtx.reqHeaderResp = some (.requestHeaders ⟨generateHeaders trace c, []⟩ metadata) := by
  obtain ⟨x, hx, hp⟩ := (Option.any_eq_true _ _).1 h
  have hruns := runs_of_runOps _ hx
  simp only [Bool.and_eq_true, decide_eq_true_eq] at hp
  obtain ⟨resp, hresp⟩ := Option.isSome_iff_exists.1 hp.2
  obtain ⟨_, trace, c, metadata, rfl, _⟩ := (routed_of_runs hruns).answer resp hresp
  exact ⟨x, trace, c, metadata, hruns, hp.1, hresp⟩

/-- A request with headers of its own, and with a destination and a length to be replaced. -/
theorem headers_delivered_foreign : ∃ x mutation metadata,
    Runs (step (F := Unit) (openAI numberUsage)) (fun _ _ => True) start x ∧
    x.stream.reqCtx.reqHeaderResp = some (.requestHeaders mutation metadata) ∧
    Delivered (mutation.apply (fieldsOf x.client)) x.stream.reqCtx.targetEndpoint x.stream.forwarded := by
  obtain ⟨x, trace, c, metadata, hruns, hclient, hresp⟩ := exists_answered
    [⟨"accept", "", "text/plain"⟩, ⟨"X-Gateway-Destination-Endpoint", "", "10.6.6.6:1"⟩, ⟨"content-length", "", "99"⟩]
    (by decide +kernel)
  refine ⟨x, _, metadata, hruns, hresp, (headers_delivered_iff hruns hresp).2 ?_⟩
  rw [hclient]
  unfold Uncontrolled
  decide +kernel

/-- The fairness id of a client reaches the backend. -/
theorem control_header_delivered : ∃ x mutation metadata,
    Runs (step (F := Unit) (openAI numberUsage)) (fun _ _ => True) start x ∧
    x.stream.reqCtx.reqHeaderResp = some (.requestHeaders mutation metadata) ∧
    flowFairnessIDKey ∈ inputControlHeaders ∧
    values String.toLower (mutation.apply (fieldsOf x.client)) flowFairnessIDKey = ["tenant"] := by
  obtain ⟨x, trace, c, metadata, hruns, hclient, hresp⟩ := exists_answered
    [⟨"x-gateway-inference-fairness-id", "", "tenant"⟩] (by decide +kernel)
  have hcontrol : flowFairnessIDKey ∈ inputControlHeaders := by decide +kernel
  refine ⟨x, _, metadata, hruns, hresp, hcontrol, ?_⟩
  rw [apply_control hcontrol, hclient]
  decide +kernel

end Session

end InferenceGateway.Handlers
