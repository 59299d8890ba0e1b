import InferenceGateway.Handlers.Delivery
/-!
# The chunks of a body

The body responses of a request and of a response carry the body in chunks of limited
size, the last of which ends the stream if it is to end; the length that is sent with a
request is the length of all its chunks.
-/

namespace InferenceGateway.Handlers

open Lib RequestControl List

/-- The body is in the chunks, and the stream ends with the last one or not at all. -/
structure Chunked (body : List UInt8) (setEos : Bool) (chunks : List StreamedBodyResponse) : Prop where
  flatten : (chunks.map StreamedBodyResponse.body).flatten = body
  limit : ∀ chunk ∈ chunks, chunk.body.length ≤ bodyByteLimit
  last : ∃ init last, chunks = init ++ [last] ∧ last.endOfStream = setEos ∧ ∀ chunk ∈ init, chunk.endOfStream = false

variable {body : List UInt8} {setEos : Bool}

theorem chunksFrom_limit (i : ℕ) : ∀ chunk ∈ chunksFrom body setEos i, chunk.body.length ≤ bodyByteLimit := by
  fun_induction chunksFrom body setEos i with
  | case1 i h len ih =>
    intro chunk hchunk
    rcases mem_cons.1 hchunk with rfl | hchunk
    · simp only [length_take, len]
      omega
    · exact ih chunk hchunk
  | case2 i h => simp

theorem chunksFrom_last {i : ℕ} (hi : i < body.length) : ∃ init last, chunksFrom body setEos i = init ++ [last] ∧
    last.endOfStream = setEos ∧ ∀ chunk ∈ init, chunk.endOfStream = false := by
  fun_induction chunksFrom body setEos i with
  | case1 i h len ih =>
    by_cases hmore : i + len < body.length
    · obtain ⟨init, last, heq, hlast, hinit⟩ := ih hmore
      refine ⟨_ :: init, last, by rw [heq, cons_append], hlast, fun chunk hchunk => ?_⟩
      rcases mem_cons.1 hchunk with rfl | hchunk
      · simp only [Bool.and_eq_false_imp, decide_eq_false_iff_not]
        omega
      · exact hinit chunk hchunk
    · refine ⟨[], _, by rw [chunksFrom, dif_neg hmore, nil_append], ?_, (by simp)⟩
      rw [decide_eq_true (by omega), Bool.and_true]
  | case2 i h => exact absurd hi h

theorem chunked_buildChunkedBodyResponses (body : List UInt8) (setEos : Bool) :
    Chunked body setEos (buildChunkedBodyResponses body setEos) := by
  refine ⟨buildChunkedBodyResponses_flatten body setEos, ?_, ?_⟩ <;> unfold buildChunkedBodyResponses <;> split
  · rename_i hempty
    intro chunk hchunk
    rw [mem_singleton.1 hchunk]
    exact hempty ▸ Nat.zero_le _
  · exact chunksFrom_limit 0
  · exact ⟨[], _, rfl, rfl, nofun⟩
  · rename_i hne
    exact chunksFrom_last (Nat.pos_of_ne_zero hne)

/-- The chunk of a body response. -/
def ProcessingResponse.chunk : ProcessingResponse → Option StreamedBodyResponse
  | requestBody chunk | responseBody chunk _ => some chunk
  | _ => none

theorem attachMetadata_chunk (metadata : Option Struct) : ∀ chunks : List StreamedBodyResponse,
    (attachMetadata metadata chunks).map ProcessingResponse.chunk = chunks.map some
  | [] | [_] => rfl
  | chunk :: chunk' :: chunks => congrArg (some chunk :: ·) (attachMetadata_chunk metadata (chunk' :: chunks))

/-- The only length among the headers is the size in the context. -/
theorem contentLength_generateHeaders {trace : TraceContext} {c : RequestContext} :
    (∀ f ∈ generateHeaders trace c, f.1.toLower = "content-length" → f.2 = toString c.requestSize) ∧
      (0 < c.requestSize → ("Content-Length", toString c.requestSize) ∈ generateHeaders trace c) := by
  have hdest : destinationEndpointKey.toLower ≠ "content-length" := by decide +kernel
  unfold generateHeaders
  constructor
  · intro f hf hname
    rw [append_assoc, append_assoc] at hf
    rcases mem_append.1 hf with hf | hf
    · rw [mem_singleton.1 hf] at hname
      exact absurd hname hdest
    · rcases mem_append.1 hf with hf | hf
      · split at hf
        · rw [mem_singleton.1 hf]
        · cases hf
      · exact absurd hname (generateHeaders_ne trace c (.inr (.inr mem_cons_self)) f hf)
  · intro h
    simp [h]

/-- The bodies of requests and responses go in chunks, and in every run the length that is
sent with a body is the length of its chunks. -/
theorem bodies_chunked {F : Type} (s : StreamingServer) :
    (∀ body, ∃ chunks, Chunked body true chunks ∧
      (generateRequestBodyResponses body).map ProcessingResponse.chunk = chunks.map some) ∧
    (∀ body setEos metadata, ∃ chunks, Chunked body setEos chunks ∧
      (generateResponseBodyResponses body setEos metadata).map ProcessingResponse.chunk = chunks.map some) ∧
    ∀ x mutation metadata, Runs (Session.step (F := F) s) (fun _ _ => True) Session.start x →
      x.stream.reqCtx.reqHeaderResp = some (.requestHeaders mutation metadata) →
      (∀ f ∈ mutation.setHeaders, f.1.toLower = "content-length" → f.2 = toString x.stream.forwarded.length) ∧
        (x.stream.forwarded ≠ [] → ("Content-Length", toString x.stream.forwarded.length) ∈ mutation.setHeaders) := by
  refine ⟨fun body => ⟨_, chunked_buildChunkedBodyResponses body true, ?_⟩,
    fun body setEos metadata => ⟨_, chunked_buildChunkedBodyResponses body setEos, attachMetadata_chunk metadata _⟩, ?_⟩
  · rw [generateRequestBodyResponses, map_map]
    rfl
  · intro x mutation metadata hrun hresp
    obtain ⟨_, trace, c, _, heq, _, hsize⟩ := (Session.routed_of_runs hrun).answer _ hresp
    cases heq
    rw [← hsize, ← length_pos_iff, ← hsize]
    exact contentLength_generateHeaders

theorem bodies_chunked_answered : ∃ x mutation metadata,
    Runs (Session.step (F := Unit) (openAI numberUsage)) (fun _ _ => True) Session.start x ∧
    x.stream.reqCtx.reqHeaderResp = some (.requestHeaders mutation metadata) ∧
    ∀ f ∈ mutation.setHeaders, f.1.toLower = "content-length" → f.2 = toString x.stream.forwarded.length := by
  obtain ⟨x, trace, c, metadata, hruns, -, hresp⟩ := Session.exists_answered [] (by decide +kernel)
  exact ⟨x, _, metadata, hruns, hresp, ((bodies_chunked _).2.2 x _ metadata hruns hresp).1⟩

end InferenceGateway.Handlers
