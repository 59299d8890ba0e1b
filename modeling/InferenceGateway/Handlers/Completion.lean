import InferenceGateway.Handlers.Steps
import InferenceGateway.Parsers.OpenAI
/-!
# The end of a response is told once

The director's hook is called with `endOfStream` by the last chunk, by the trailers,
or by the deferred function. `ResponseComplete` is what keeps these apart; it is set
before the parser is called, and the hook comes after the parser. So the count is
right in every run in which the parser returns on the end of the response.
-/

namespace InferenceGateway.Handlers

open Lib Parsers RequestControl List RequestContext

variable {F : Type} {s : StreamingServer} {a : Answers F}

namespace Stream

variable {st st' : Stream}

/-- While the loop runs: a call for every chunk, and one for the end of a complete response. -/
def Told (st : Stream) : Prop :=
  ∃ n, st.hooks = List.replicate n (.loop, false) ++ if st.reqCtx.responseComplete then [(.loop, true)] else []

/-- After the deferred function: the end has been told, unless there was no endpoint to tell it of. -/
def Finished (st : Stream) : Prop :=
  ∃ n, st.hooks = List.replicate n (.loop, false) ++
    if st.reqCtx.responseComplete then [(.loop, true)]
    else if st.reqCtx.targetPod.isSome then [(.cleanup, true)] else []

theorem Told.finish (h : st.Told) (d : Director F) (ending : Ending) : (st.finish d ending).Finished := by
  obtain ⟨n, hn⟩ := h
  refine ⟨n, ?_⟩
  unfold Stream.finish
  dsimp only
  split
  · rename_i hcond
    obtain ⟨hpod, hcomplete⟩ := hcond
    simp only [hook, hn, if_neg hcomplete, if_pos hpod, append_nil]
  · rename_i hcond
    by_cases hcomplete : st.reqCtx.responseComplete = true
    · simp only [hn, if_pos hcomplete]
    · have hpod : ¬ st.reqCtx.targetPod.isSome = true := fun hpod => hcond ⟨hpod, hcomplete⟩
      simp only [hn, if_neg hcomplete, if_neg hpod]

end Stream

namespace Session

variable {x x' : Session}

/-- The parser returns on the end of the response, if the message brings it. -/
def Parsed (s : StreamingServer) (x : Session) : SessionEvent F → Prop
  | .message m _ =>
    match x.stream.finalPart m with
    | some bytes => Returns (s.parseResponse bytes x.stream.reqCtx.response.headers true)
    | none => True
  | .disconnect _ => True

/-- The loop is running. -/
structure Going (st : Stream) : Prop where
  ended : st.ended = none
  told : st.Told

variable {st : Stream}

theorem Going.of_same {st' : Stream} (h : Going st) (hended : st'.ended = st.ended) (hhooks : st'.hooks = st.hooks)
    (hcomplete : st'.reqCtx.responseComplete = st.reqCtx.responseComplete) : Going st' := by
  refine ⟨hended.trans h.ended, ?_⟩
  unfold Stream.Told
  rw [hhooks, hcomplete]
  exact h.told

theorem Going.of_settled {st' : Stream} (hsettled : st'.settled = st.settled) (h : Going st) : Going st' :=
  h.of_same (congrArg Stream.ended hsettled :) (congrArg Stream.hooks hsettled :)
    (congrArg (fun st : Stream => st.reqCtx.responseComplete) hsettled :)

variable {m : Message}

theorem Going.asked {r : Stream × Except Stop Unit} (h : Going st) (hasked : st.Asked m r) : Going r.1 := by
  cases hasked with
  | failed c _ _ hc | read c _ hc | answered c _ _ _ _ hc => exact h.of_same rfl rfl (congrArg responseComplete hc :)

/-- A part of a response that is not complete: only its end is told as such. -/
theorem Going.part {r : Stream × Except Stop Unit} (h : Going st) (hincomplete : st.reqCtx.responseComplete = false)
    (hpart : st.Part s m r)
    (hparse : ∀ bytes, st.finalPart m = some bytes → Returns (s.parseResponse bytes st.reqCtx.response.headers true)) :
    Going r.1 := by
  obtain ⟨n, hn⟩ := h.told
  rw [hincomplete, if_neg Bool.false_ne_true, append_nil] at hn
  cases hpart with
  | kept body hnone => exact ⟨h.ended, n, by simpa [hincomplete] using hn⟩
  | panicked c body p hc hp =>
    have hcomplete : c.responseComplete = (st.finalPart m).isSome := (congrArg responseComplete hc :)
    cases hfinal : st.finalPart m with
    | some bytes =>
      obtain ⟨_, hok⟩ := hparse bytes hfinal
      rw [hp bytes hfinal] at hok
      cases hok
    | none =>
      rw [hfinal] at hcomplete
      exact ⟨h.ended, n, by simpa [hcomplete] using hn⟩
  | called c body responses pending hc _ _ =>
    have hcomplete : c.responseComplete = (st.finalPart m).isSome := (congrArg responseComplete hc :)
    cases hfinal : st.finalPart m with
    | some bytes =>
      rw [hfinal] at hcomplete
      refine ⟨h.ended, n, ?_⟩
      dsimp only
      rw [hcomplete, hn]
      rfl
    | none =>
      rw [hfinal] at hcomplete
      refine ⟨h.ended, n + 1, ?_⟩
      dsimp only
      rw [hcomplete, hn, replicate_succ']
      simp

theorem Going.handle {request response : Side} (htidy : x.Tidy) (h : Going x.stream)
    (hadv : advance x.request x.response m = some (request, response)) (hparse : x.Parsed s (.message m a)) :
    Going (x.stream.handle s a m).1 := by
  rcases advance_cases hadv x.stream with ⟨hm, _⟩ | ⟨⟨headers, eos, rfl⟩, _⟩ | ⟨hm, hflowing, _⟩
  · exact h.asked (x.stream.handle_asked hm)
  · obtain ⟨c, hc, _, _, hhandle⟩ := x.stream.handle_responseHeaders s a headers eos
    rw [hhandle]
    exact h.of_same rfl rfl (congrArg responseComplete hc :)
  · have hincomplete := htidy.incomplete (by rw [hflowing]; nofun)
    refine h.part hincomplete (x.stream.handle_part hm hincomplete) fun bytes hbytes => ?_
    simpa only [Parsed, hbytes] using hparse

/-- What a run keeps: the stream goes on, or it has been finished. -/
structure Watched (x : Session) : Prop where
  tidy : x.Tidy
  calls : Going x.stream ∨ x.stream.ended.isSome ∧ x.stream.Finished

theorem watched_step {e : SessionEvent F} (h : x.Watched) (hparse : x.Parsed s e) (hstep : x.step s e = .ok x') :
    x'.Watched := by
  refine ⟨tidy_step h.tidy hstep, ?_⟩
  obtain ⟨hended, ⟨a, rfl, rfl⟩ | ⟨m, a, request, response, rfl, hadv, rfl⟩⟩ := step_cases hstep
  all_goals have hgoing : Going x.stream := h.calls.resolve_right fun h => by simp [hended] at h
  · exact .inr ⟨by rw [Stream.finish_ended]; rfl, hgoing.told.finish _ _⟩
  · rcases Stream.receive_cases Going (fun _ _ => Going.of_settled) (Going.handle h.tidy hgoing hadv hparse) with
      hgoing' | ⟨st₁, ending, hgoing', heq⟩
    · exact .inl hgoing'
    · refine .inr ?_
      dsimp only
      rw [heq]
      exact ⟨by rw [Stream.finish_ended]; rfl, hgoing'.told.finish _ _⟩

theorem watched_start : start.Watched := ⟨nofun, .inl ⟨rfl, 0, rfl⟩⟩

/-- The calls are one for every chunk, and the last one, if any, is for the end. -/
theorem Watched.hooks (h : x.Watched) : ∃ n last, x.stream.hooks = List.replicate n (.loop, false) ++ last ∧
    (last = [] ∨ last = [(.loop, true)] ∨ last = [(.cleanup, true)] ∧ x.stream.reqCtx.targetPod.isSome) ∧
    (x.stream.ended.isSome → x.stream.reqCtx.targetPod.isSome → last ≠ []) := by
  rcases h.calls with ⟨hended, n, hn⟩ | ⟨_, n, hn⟩
  · refine ⟨n, _, hn, ?_, fun h => absurd h (by simp [hended])⟩
    split
    · exact .inr (.inl rfl)
    · exact .inl rfl
  · refine ⟨n, _, hn, ?_, fun _ hpod => ?_⟩
    · split
      · exact .inr (.inl rfl)
      · split
        · rename_i hpod
          exact .inr (.inr ⟨rfl, hpod⟩)
        · exact .inl rfl
    · rw [if_pos hpod]
      split <;> exact cons_ne_nil _ _

/-- In every run in which the parser returns on the end of the response: the hook is never
called after it was told the end; once the stream is over, it has been told, if there
was an endpoint to tell it of; and it is not the cleanup that tells it where there was none. -/
theorem end_told_once {x : Session} (h : Runs (step (F := F) s) (Parsed s) start x) :
    (∃ n, x.stream.hooks.map Prod.snd = List.replicate n false ∨
      x.stream.hooks.map Prod.snd = List.replicate n false ++ [true]) ∧
    (x.stream.ended.isSome → x.stream.reqCtx.targetPod.isSome →
      ∃ n, x.stream.hooks.map Prod.snd = List.replicate n false ++ [true]) ∧
    (x.stream.reqCtx.targetPod = none → ∀ call ∈ x.stream.hooks, call.1 ≠ .cleanup) := by
  have hw : x.Watched := h.invariant Watched (fun _ _ _ hw hp hs => watched_step hw hp hs) watched_start
  obtain ⟨n, last, hhooks, hlast, hover⟩ := hw.hooks
  rw [hhooks, map_append, map_replicate]
  have hcall : ∀ call ∈ List.replicate n (Caller.loop, false) ++ last, call ∈ last ∨ call.1 = .loop := by
    intro call hcall
    rcases mem_append.1 hcall with hcall | hcall
    · exact .inr (by rw [eq_of_mem_replicate hcall])
    · exact .inl hcall
  rcases hlast with rfl | rfl | ⟨rfl, hpod⟩
  · refine ⟨⟨n, .inl (append_nil _)⟩, fun hended hpod => absurd rfl (hover hended hpod), fun _ call hmem => ?_⟩
    rw [(hcall call hmem).resolve_left not_mem_nil]
    nofun
  · refine ⟨⟨n, .inr rfl⟩, fun _ _ => ⟨n, rfl⟩, fun _ call hmem => ?_⟩
    rcases hcall call hmem with hlast | hloop
    · rw [mem_singleton.1 hlast]
      nofun
    · rw [hloop]
      nofun
  · exact ⟨⟨n, .inr rfl⟩, fun _ _ => ⟨n, rfl⟩, fun hnone => by rw [hnone] at hpod; cases hpod⟩

end Session

/-! ## With the OpenAI parser -/

def openAI (lib : Library) : StreamingServer where
  ParseError := OpenAI.JsonError
  parseResponse bytes headers _ := OpenAI.parseResponse lib bytes (headers.entries.map fun e => (e.1, e.2))

/-- A director that sends every request to one endpoint. -/
def oneEndpoint (endpoint : EndpointMetadata) : Director Unit where
  parseRequest _ _ := .ok (.ok ⟨.raw, false⟩)
  modelRewrite _ := none
  marshal _ := none
  objectiveGet _ := none
  admission _ _ := none
  locate := [endpoint]
  admitRequest _ _ := true
  schedule _ _ := .ok (some ⟨AList.singleton "default" [endpoint], "default"⟩)
  preRequest _ _ := .ok ()
  getRandomEndpoint := some endpoint
  responseBody _ _ := none

/-- Everything is sent. -/
def smooth : Answers Unit := ⟨oneEndpoint ⟨"10.0.0.1", "8000"⟩, ⟨none, none, none⟩, "id", fun _ => true⟩

/-- A library that reads one text, whose usage is a number. -/
def numberUsage : Library := OpenAI.oneText "\x7b\"usage\": 5\x7d" (.obj [("usage", .num "5")])

namespace Session

/-- A request of one chunk, and its response in these parts. -/
def exchange (parts : List Message) : List (SessionEvent Unit) :=
  (Message.requestHeaders [] false :: .requestBody [1] true :: parts).map (.message · smooth)

instance (s : StreamingServer) (x : Session) : (e : SessionEvent F) → Decidable (x.Parsed s e)
  | .message m _ =>
    match hfinal : x.stream.finalPart m with
    | some bytes => decidable_of_iff (Returns (s.parseResponse bytes x.stream.reqCtx.response.headers true))
        (by simp only [Parsed, hfinal])
    | none => isTrue (by simp only [Parsed, hfinal])
  | .disconnect _ => isTrue trivial

/-- A stream of two chunks. -/
theorem end_told_once_stream :
    ∃ x, Runs (step (F := Unit) (openAI numberUsage)) (Parsed (openAI numberUsage)) start x ∧
      x.stream.hooks.map Prod.snd = [false, true] ∧
      ∃ n, x.stream.hooks.map Prod.snd = List.replicate n false ++ [true] := by
  refine exists_runs (exchange [.responseHeaders [⟨"content-type", "", "text/event-stream"⟩] false, .responseBody [100] false,
      .responseBody [100] true] ++ [.disconnect smooth])
    (fun x => x.stream.ended.isSome ∧ x.stream.reqCtx.targetPod.isSome ∧ x.stream.hooks.map Prod.snd = [false, true])
    (by decide +kernel) ?_
  rintro x hruns ⟨hended, hpod, hhooks⟩
  exact ⟨hhooks, (end_told_once hruns).2.1 hended hpod⟩

/-- The response counts as complete when the parser panics, so the cleanup does not call the
hook either. -/
theorem end_never_told :
    ∃ x, Runs (step (F := Unit) (openAI numberUsage)) (fun _ _ => True) start x ∧
      x.stream.ended = some (.panicked .typeAssertion) ∧ x.stream.reqCtx.targetPod.isSome ∧ x.stream.hooks = [] :=
  exists_runs (exchange [.responseHeaders [] false, .responseBody "\x7b\"usage\": 5\x7d".toUTF8.data.toList true]) _
    (by decide +kernel) fun _ _ h => h

end Session

end InferenceGateway.Handlers
