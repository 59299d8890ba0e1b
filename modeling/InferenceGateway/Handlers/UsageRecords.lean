import InferenceGateway.Handlers.Completion
import InferenceGateway.Parsers.Events
/-!
# The usage recorded for a streamed response

`HandleResponseBody` asks the parser for the usage of each chunk and overwrites the one
it has. After the last chunk that should be the usage of the last event that carries
one; it is, for a text that comes in chunks that can be read one by one.
-/

namespace InferenceGateway.Handlers

open Lib Parsers RequestControl List OpenAI

variable {F : Type} {lib : Library}

namespace Stream

/-- The chunks of a response, the last one marked as the end. -/
def feed (s : StreamingServer) : Stream → List (List UInt8 × Answers F) → Stream × Except Stop Unit
  | st, [] => (st, .ok ())
  | st, (chunk, a) :: chunks =>
    match st.handle s a (.responseBody chunk chunks.isEmpty) with
    | (st, .ok ()) => st.feed s chunks
    | (st, .error e) => (st, .error e)

/-- The response is streamed, and its headers say so. -/
structure IsEventStream (st : Stream) : Prop where
  streaming : st.reqCtx.modelServerStreaming = true
  headers : isStream (st.reqCtx.response.headers.entries.map fun e => (e.1, e.2)) = true

theorem handleResponseBody_usage {s : StreamingServer} {d : Director F} {bytes : List UInt8} {eos : Bool} {st : Stream}
    {r : Option ParsedResponse} (h : s.parseResponse bytes st.reqCtx.response.headers eos = .ok (.ok r)) :
    ∃ st' : Stream, st.handleResponseBody s d bytes eos = (st', .ok ()) ∧
      st'.reqCtx.usage = (r.bind ParsedResponse.usage).getD st.reqCtx.usage ∧
      st'.reqCtx.response.headers = st.reqCtx.response.headers ∧
      st'.reqCtx.modelServerStreaming = st.reqCtx.modelServerStreaming := by
  unfold handleResponseBody
  dsimp only
  rw [h]
  match r with
  | none => exact ⟨_, rfl, rfl, rfl, rfl⟩
  | some ⟨none⟩ => exact ⟨_, rfl, rfl, rfl, rfl⟩
  | some ⟨some usage⟩ => exact ⟨_, rfl, rfl, rfl, rfl⟩

theorem parseResponse_chunk {headers : List (String × String)} (hheaders : isStream headers = true) {chunk : List UInt8}
    {usage : Option Usage} (h : extractUsageStreaming lib chunk = .ok usage) :
    ∃ r, parseResponse lib chunk headers = .ok (.ok r) ∧ r.bind ParsedResponse.usage = usage := by
  unfold parseResponse
  split
  · rename_i hempty
    rw [length_eq_zero_iff.1 hempty] at h
    cases h
    exact ⟨none, rfl, rfl⟩
  · rw [parseStreamResponse, h]
    exact ⟨_, rfl, rfl⟩

/-- What a chunk does: the usage it yields is recorded. -/
theorem handle_chunk {st : Stream} (hst : st.IsEventStream) {chunk : List UInt8} {usage : Option Usage}
    (h : extractUsageStreaming lib chunk = .ok usage) (a : Answers F) (eos : Bool) :
    ∃ st' : Stream, st.handle (openAI lib) a (.responseBody chunk eos) = (st', .ok ()) ∧ st'.IsEventStream ∧
      st'.reqCtx.usage = usage.getD st.reqCtx.usage := by
  obtain ⟨r, hr, husage⟩ := parseResponse_chunk hst.headers h
  have hbody : ∃ st' : Stream,
      (if eos then st.complete else st).handleResponseBody (openAI lib) a.director chunk eos = (st', .ok ()) ∧
      st'.reqCtx.usage = (r.bind ParsedResponse.usage).getD st.reqCtx.usage ∧
      st'.reqCtx.response.headers = st.reqCtx.response.headers ∧
      st'.reqCtx.modelServerStreaming = st.reqCtx.modelServerStreaming := by
    cases eos with
    | true | false => exact handleResponseBody_usage hr
  obtain ⟨st', hok, hst', hheaders, hstreaming⟩ := hbody
  refine ⟨st'.respondWith chunk eos, ?_, ⟨hstreaming.trans hst.streaming, ?_⟩, hst'.trans (by rw [husage])⟩
  · rw [handle, if_pos hst.streaming, hok]
    rfl
  · exact hheaders ▸ hst.headers

theorem feed_recorded : ∀ (chunks : List (List UInt8 × Answers F)) {st : Stream}, st.IsEventStream →
    (∀ chunk ∈ chunks, extractUsageStreaming lib chunk.1 =
      .ok ((eventsOf lib chunk.1).filterMap (carried lib)).head?) →
    ∃ st' : Stream, st.feed (openAI lib) chunks = (st', .ok ()) ∧
      st'.reqCtx.usage = recorded lib st.reqCtx.usage (chunks.map Prod.fst)
  | [], st, _, _ => ⟨st, rfl, rfl⟩
  | (chunk, a) :: chunks, st, hst, h => by
    obtain ⟨st₁, hhandle, hst₁, husage⟩ := handle_chunk hst (h _ mem_cons_self) a chunks.isEmpty
    obtain ⟨st₂, hfeed, hrecorded⟩ := feed_recorded chunks hst₁ fun c hc => h c (mem_cons_of_mem _ hc)
    refine ⟨st₂, ?_, ?_⟩
    · rw [feed, hhandle]
      exact hfeed
    · rw [hrecorded, husage]
      rfl

/-- A library that reads these texts. -/
def readsTexts (texts : List (String × Json)) : Library :=
  { oneText "" .null with
    parse := fun bytes => (texts.find? fun e => e.1.toUTF8.data.toList = bytes).map Prod.snd }

/-- A stream that waits for the first chunk of a response. -/
def responding : Stream :=
  { Stream.new with reqCtx := { RequestContext.new with
      modelServerStreaming := true, response := ⟨AList.singleton "content-type" "text/event-stream", none⟩ } }

/-- An event that counts its tokens. -/
def countEvent (total : String) : Json := .obj [("usage", .obj [("total_tokens", .num total)])]

end Stream

end InferenceGateway.Handlers
