import InferenceGateway.Eviction.Queue
import InferenceGateway.RequestControl.Director
import InferenceGateway.Lib.Runs
/-!
# Evictions beside arrivals and completions

`eviction/plugin.go`. A request is tracked from `PreRequest` to the end of its response.
Any number of eviction loops pop requests and try to abort them; one whose abort has
failed is tracked again. A request that completes while a loop holds it is tracked again
all the same. As long as that does not happen, only requests that are live are tracked,
also when several of them have the same id.
-/

namespace InferenceGateway.Eviction

open Lib Handlers RequestControl List

/-- The id in the headers, unless it is missing or empty. -/
def requestIDOf (request : LLMRequest) : Option String := (request.headers.lookup requestIdHeaderKey).filter (· ≠ "")

/-- The item that `PreRequest` tracks, if any; `self` is which request it is. -/
def evictionItem (self : ℕ) (request : Option LLMRequest) (result : Option SchedulingResult) (now : Int) : Option EvictionItem :=
  match request, result with
  | some request, some result =>
    match (result.profileResults.lookup result.primaryProfileName).getD [] with
    | [] => none
    | metadata :: _ => (requestIDOf request).map fun requestID => {
        requestID := requestID
        request := self
        priority := request.priority
        dispatchTime := now
        targetURL := "http://" ++ joinHostPort metadata.address metadata.port }
  | _, _ => none

/-- A call of `EvictN`. -/
inductive EvictLoop where
  /-- Before a round, with the rounds that are left. -/
  | next (rounds : ℕ) (aborted : List String)
  /-- `Abort` is under way. -/
  | aborting (item : EvictionItem) (rounds : ℕ) (aborted : List String)
  | done (aborted : List String)

/-- The plugin, and what is going on. -/
structure System where
  queue : EvictionQueue
  loops : List EvictLoop
  /-- The requests that have started, in this order. -/
  requests : List (Option LLMRequest)
  /-- Those that have not completed. -/
  live : List ℕ

namespace System

inductive Op where
  /-- `PreRequest`. -/
  | arrive (request : Option LLMRequest) (result : Option SchedulingResult) (now : Int)
  /-- `ResponseBody` at the end of the stream. -/
  | complete (i : ℕ)
  /-- The context of the request is done before its response has ended. -/
  | cancel (i : ℕ)
  /-- The context of the request is done after that. -/
  | contextDone (i : ℕ)
  | evictN (n : ℕ)
  /-- The next step of a call of `EvictN`. -/
  | pop (j : ℕ)
  | abort (j : ℕ) (fails : Bool)

def new : System := ⟨.new, [], [], []⟩

variable (less : EvictionItem → EvictionItem → Bool) (accept : EvictionItem → Bool)

def preRequest (q : EvictionQueue) (self : ℕ) (request : Option LLMRequest) (result : Option SchedulingResult) (now : Int) :
    EvictionQueue :=
  match evictionItem self request result now with
  | none => q
  | some item => q.track less accept item

def responseBody (q : EvictionQueue) (request : Option LLMRequest) : EvictionQueue :=
  match request.bind requestIDOf with
  | none => q
  | some requestID => q.untrack less requestID

variable (s : System)

def setLoop (j : ℕ) (queue : EvictionQueue) (l : EvictLoop) : System :=
  { s with queue := queue, loops := s.loops.set j l }

def popStep (j : ℕ) : System :=
  match s.loops[j]? with
  | some (.next 0 aborted) => s.setLoop j s.queue (.done aborted)
  | some (.next (rounds + 1) aborted) =>
    match s.queue.popN less 1 with
    | ([], queue) => s.setLoop j queue (.done aborted)
    | (item :: _, queue) => s.setLoop j queue (.aborting item rounds aborted)
  | _ => s

def abortStep (j : ℕ) (fails : Bool) : System :=
  match s.loops[j]? with
  | some (.aborting item rounds aborted) =>
    -- whether the request is still there is not asked
    if fails then s.setLoop j (s.queue.track less accept item) (.next rounds aborted)
    else s.setLoop j s.queue (.next rounds (aborted ++ [item.requestID]))
  | _ => s

/-- The request that started as the `i`th, if there is one. -/
def requestOf (i : ℕ) : Option LLMRequest := (s.requests[i]?).join

def step : Op → Except Empty System
  | .arrive request result now =>
    .ok { s with
      queue := preRequest less accept s.queue s.requests.length request result now
      requests := s.requests ++ [request]
      live := s.live ++ [s.requests.length] }
  | .complete i =>
    .ok { s with queue := responseBody less s.queue (s.requestOf i), live := s.live.filter (· ≠ i) }
  | .cancel i =>
    .ok { s with queue := responseBody less s.queue (s.requestOf i), live := s.live.filter (· ≠ i) }
  | .contextDone i => .ok { s with queue := responseBody less s.queue (s.requestOf i) }
  | .evictN n => .ok { s with loops := s.loops ++ [.next n []] }
  | .pop j => .ok (s.popStep less j)
  | .abort j fails => .ok (s.abortStep less accept j fails)

/-- A request whose abort fails has not completed in the meantime. -/
def StillLive : Op → Prop
  | .abort j true =>
    match s.loops[j]? with
    | some (.aborting item _ _) => item.request ∈ s.live
    | _ => True
  | _ => True

instance (op : Op) : Decidable (s.StillLive op) := by
  unfold StillLive
  split
  · split <;> infer_instance
  · infer_instance

/-- The item is one of its request. -/
def Owns (requests : List (Option LLMRequest)) (item : EvictionItem) : Prop :=
  ∃ request, requests[item.request]? = some (some request) ∧ requestIDOf request = some item.requestID

/-- Only what is live is tracked, under the id of its request. -/
structure Sound (s : System) : Prop where
  kept : s.queue.WellKept
  tracked : ∀ id item, s.queue.allInFlight.lookup id = some item → item.requestID = id ∧ Owns s.requests item ∧ item.request ∈ s.live
  held : ∀ item rounds aborted, .aborting item rounds aborted ∈ s.loops → Owns s.requests item

theorem Owns.append {requests : List (Option LLMRequest)} {item : EvictionItem} (h : Owns requests item)
    (request : Option LLMRequest) : Owns (requests ++ [request]) item := by
  obtain ⟨r, hr, hid⟩ := h
  exact ⟨r, by rw [List.getElem?_append_left (List.getElem?_eq_some_iff.1 hr).1, hr], hid⟩

theorem owns_evictionItem {requests : List (Option LLMRequest)} {request : Option LLMRequest} {result : Option SchedulingResult}
    {now : Int} {item : EvictionItem} (h : evictionItem requests.length request result now = some item) :
    Owns (requests ++ [request]) item ∧ item.request = requests.length := by
  unfold evictionItem at h
  split at h
  · split at h
    · cases h
    · obtain ⟨requestID, hid, rfl⟩ := Option.map_eq_some_iff.1 h
      exact ⟨⟨_, by simp, hid⟩, rfl⟩
  · cases h

variable {less accept} {s s' : System}

theorem held_set {j : ℕ} {l : EvictLoop} {P : EvictionItem → Prop}
    (hheld : ∀ item rounds aborted, .aborting item rounds aborted ∈ s.loops → P item)
    (hl : ∀ item rounds aborted, l = .aborting item rounds aborted → P item) :
    ∀ item rounds aborted, .aborting item rounds aborted ∈ s.loops.set j l → P item := by
  intro item rounds aborted hmem
  rcases mem_or_eq_of_mem_set hmem with hmem | heq
  · exact hheld item rounds aborted hmem
  · exact hl item rounds aborted heq.symm

variable (h : s.Sound)
include h

/-- The item of a live request is tracked. -/
theorem Sound.track {item : EvictionItem} {requests : List (Option LLMRequest)} {live : List ℕ} {loops : List EvictLoop}
    (hmore : ∀ item, Owns s.requests item → Owns requests item) (hlive : ∀ i ∈ s.live, i ∈ live) (hitem : Owns requests item)
    (hstarted : item.request ∈ live)
    (hheld : ∀ item rounds aborted, .aborting item rounds aborted ∈ loops → Owns requests item) :
    Sound ⟨s.queue.track less accept item, loops, requests, live⟩ := by
  obtain ⟨hkept, hin⟩ := h.kept.track less accept item
  refine ⟨hkept, fun id item' hid => ?_, hheld⟩
  rw [hin, Table.lookup_insert_ite] at hid
  split at hid
  · cases hid
    exact ⟨‹id = _›.symm, hitem, hstarted⟩
  · obtain ⟨hkey, howns, hin⟩ := h.tracked id item' hid
    exact ⟨hkey, hmore item' howns, hlive _ hin⟩

/-- What is tracked under the id of a request goes, and with it all that is tracked of the request. -/
theorem Sound.responseBody (i : ℕ) {live : List ℕ} (hlive : ∀ k ∈ s.live, k ≠ i → k ∈ live) :
    Sound ⟨responseBody less s.queue (s.requestOf i), s.loops, s.requests, live⟩ := by
  have hother : ∀ id item, s.queue.allInFlight.lookup id = some item → item.request = i →
      ∃ request, s.requestOf i = some request ∧ requestIDOf request = some id := by
    rintro id item hid rfl
    obtain ⟨hkey, ⟨request, hrequest, hidOf⟩, -⟩ := h.tracked id item hid
    exact ⟨request, by rw [requestOf, hrequest]; rfl, hidOf.trans (congrArg some hkey)⟩
  unfold System.responseBody
  cases hid : (s.requestOf i).bind requestIDOf with
  | none =>
    refine ⟨h.kept, fun id item hin => ?_, h.held⟩
    obtain ⟨hkey, howns, hin'⟩ := h.tracked id item hin
    refine ⟨hkey, howns, hlive _ hin' fun heq => ?_⟩
    obtain ⟨request, hrequest, hidOf⟩ := hother id item hin heq
    rw [hrequest, Option.bind_some, hidOf] at hid
    cases hid
  | some requestID =>
    obtain ⟨hkept, herase⟩ := h.kept.untrack less requestID
    refine ⟨hkept, fun id item hin => ?_, h.held⟩
    rw [herase, Table.lookup_erase_ite] at hin
    split at hin
    · cases hin
    · rename_i hne
      obtain ⟨hkey, howns, hin'⟩ := h.tracked id item hin
      refine ⟨hkey, howns, hlive _ hin' fun heq => hne ?_⟩
      obtain ⟨request, hrequest, hidOf⟩ := hother id item hin heq
      rw [hrequest, Option.bind_some, hidOf] at hid
      exact Option.some.inj hid

theorem Sound.arrive (request : Option LLMRequest) (result : Option SchedulingResult) (now : Int) :
    Sound ⟨preRequest less accept s.queue s.requests.length request result now, s.loops, s.requests ++ [request],
      s.live ++ [s.requests.length]⟩ := by
  have hheld : ∀ item rounds aborted, .aborting item rounds aborted ∈ s.loops → Owns (s.requests ++ [request]) item :=
    fun item rounds aborted hmem => (h.held item rounds aborted hmem).append request
  unfold preRequest
  cases hitem : evictionItem s.requests.length request result now with
  | none =>
    refine ⟨h.kept, fun id item hid => ?_, hheld⟩
    obtain ⟨hkey, howns, hin⟩ := h.tracked id item hid
    exact ⟨hkey, howns.append request, mem_append_left _ hin⟩
  | some item =>
    obtain ⟨howns, hself⟩ := owns_evictionItem hitem
    exact h.track (fun _ ho => ho.append request) (fun _ hi => mem_append_left _ hi) howns
      (mem_append_right _ (by rw [hself]; exact mem_cons_self)) hheld

theorem Sound.popStep (j : ℕ) : (s.popStep less j).Sound := by
  unfold System.popStep
  split
  · exact ⟨h.kept, h.tracked, held_set h.held (by simp)⟩
  · simp only [EvictionQueue.popN]
    cases hpop : s.queue.popOne less with
    | none => exact ⟨h.kept, h.tracked, held_set h.held (by simp)⟩
    | some popped =>
      obtain ⟨item, queue⟩ := popped
      obtain ⟨hkept, hin, hitem⟩ := h.kept.popOne hpop
      refine ⟨hkept, fun id item' hid => h.tracked id item' ?_, held_set h.held ?_⟩
      · change queue.allInFlight.lookup id = some item' at hid
        rw [hin, Table.lookup_erase_ite] at hid
        split at hid
        · cases hid
        · exact hid
      · rintro item' rounds aborted heq
        cases heq
        exact (h.tracked _ item hitem).2.1
  · exact h

theorem Sound.abortStep {j : ℕ} {fails : Bool} (hlive : s.StillLive (.abort j fails)) :
    (s.abortStep less accept j fails).Sound := by
  unfold System.abortStep
  split
  · rename_i item rounds aborted hj
    have hitem := h.held item rounds aborted (mem_of_getElem? hj)
    split
    · subst fails
      simp only [StillLive, hj] at hlive
      exact h.track (fun _ ho => ho) (fun _ hi => hi) hitem hlive (held_set h.held (by simp))
    · exact ⟨h.kept, h.tracked, held_set h.held (by simp)⟩
  · exact h

theorem Sound.step {op : Op} (hop : s.StillLive op) (hstep : s.step less accept op = .ok s') : s'.Sound := by
  cases op with
  | arrive request result now =>
    cases hstep
    exact h.arrive request result now
  | complete i | cancel i =>
    cases hstep
    exact h.responseBody i fun k hk hne => mem_filter.2 ⟨hk, decide_eq_true hne⟩
  | contextDone i =>
    cases hstep
    exact h.responseBody i fun k hk _ => hk
  | evictN n =>
    cases hstep
    refine ⟨h.kept, h.tracked, fun item rounds aborted hmem => ?_⟩
    rcases mem_append.1 hmem with hmem | hmem
    · exact h.held item rounds aborted hmem
    · simp at hmem
  | pop j =>
    cases hstep
    exact h.popStep j
  | abort j fails =>
    cases hstep
    exact h.abortStep hop

omit h

theorem new_sound : new.Sound := ⟨.new, fun id item hid => (by cases hid), fun item rounds aborted hmem => (by cases hmem)⟩

/-- The lowest priority is evicted first. -/
def lowestFirst (a b : EvictionItem) : Bool := a.priority < b.priority

def requestOne : LLMRequest := ⟨"r1", "llama", false, (∅ : HeaderMap).insert requestIdHeaderKey "r1", 0, 0⟩

def resultOne : SchedulingResult := ⟨(∅ : Table String (List EndpointMetadata)).insert "default" [⟨"10.0.0.1", "8000"⟩], "default"⟩

theorem tracks_of_inFlight {id : String} {i : ℕ} (h : (s.queue.allInFlight.lookup id).any (·.request = i) = true) :
    s.queue.Tracks i := by
  obtain ⟨item, hitem, hi⟩ := (Option.any_eq_true _ _).1 h
  exact .inl ⟨id, item, hitem, of_decide_eq_true hi⟩

end System

end InferenceGateway.Eviction
